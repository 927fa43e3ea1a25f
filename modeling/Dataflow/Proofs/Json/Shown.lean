import Dataflow.Proofs.Json.Printed

namespace Dataflow.Json

-- The place where a tree stands as it was written.
def placeOf (levels : Nat) (tree : Tree) : Place :=
  ⟨levels, ofTree tree⟩

theorem ofTrees_eq (items : List Tree) : ofTrees items = items.map ofTree := by
  induction items with
  | nil => rfl
  | cons item rest ih => rw [ofTrees, ih, List.map_cons]

theorem ofFields_eq (fields : List (String × Tree)) :
    ofFields (fields.map fun field => (Tree.text field.1, field.2)) =
      fields.map fun field => (field.1.toList.map piece, ofTree field.2) := by
  induction fields with
  | nil => rfl
  | cons field rest ih => rw [List.map_cons, ofFields, ih, List.map_cons, keyOf]

section Whole

variable {levels : Nat}

-- What is read within a number of levels is read one level deeper within one more.
theorem map_within {α β : Type} {depth levels : Nat} (a : α) (f : α → β) :
    (if depth ≤ levels then some a else none).map f =
      if 1 + depth ≤ levels + 1 then some (f a) else none := by
  by_cases h : depth ≤ levels
  · rw [if_pos h, if_pos (by omega), Option.map_some]
  · rw [if_neg h, if_neg (by omega), Option.map_none]

mutual
theorem toTree?_ofTree (tree : Tree) (h : tree.Legible ReadsBack fun _ => False) (levels : Nat) :
    toTree? levels (ofTree tree) = if tree.depth ≤ levels then some tree else none := by
  match tree with
  | .null => rfl
  | .bool truth => rfl
  | .int i =>
      obtain ⟨numeral, hs, hint⟩ := spells_int h.1 h.2
      rw [ofTree, valueIn_of_spells hs, toTree?, hint]
      exact (if_pos (Nat.zero_le _)).symm
  | .float x =>
      obtain ⟨numeral, hs, hint, hfloat⟩ := spells_float h
      rw [ofTree, valueIn_of_spells hs, toTree?, hint]
      simp only [hfloat]
      exact (if_pos (Nat.zero_le _)).symm
  | .single x => exact h.elim
  | .text s =>
      rw [ofTree, toTree?, text?_pieces]
      exact (if_pos (Nat.zero_le _)).symm
  | .seq items =>
      rw [ofTree, Tree.depth]
      cases levels with
      | zero =>
          rw [toTree?, if_neg (by omega)]
      | succ levels =>
          rw [toTree?, toTreeAll?_ofTrees items h levels]
          exact map_within items Tree.seq
  | .map fields =>
      rw [ofTree, Tree.depth]
      cases levels with
      | zero =>
          rw [toTree?, if_neg (by omega)]
      | succ levels =>
          rw [toTree?, toTreeFields?_ofFields fields h levels]
          exact map_within fields Tree.map

theorem toTreeAll?_ofTrees (items : List Tree) (h : Tree.LegibleAll ReadsBack (fun _ => False) items)
    (levels : Nat) :
    toTreeAll? levels (ofTrees items) =
      if Tree.deepest items ≤ levels then some items else none := by
  match items with
  | [] => rfl
  | item :: rest =>
      rw [ofTrees, toTreeAll?, toTree?_ofTree item h.1, toTreeAll?_ofTrees rest h.2, Tree.deepest]
      by_cases hd : item.depth ≤ levels
      · by_cases hr : Tree.deepest rest ≤ levels
        · rw [if_pos hd, if_pos hr, if_pos (Nat.max_le.mpr ⟨hd, hr⟩)]
        · rw [if_pos hd, if_neg hr, if_neg fun hm => hr (Nat.max_le.mp hm).2]
      · rw [if_neg hd, if_neg fun hm => hd (Nat.max_le.mp hm).1]

theorem toTreeFields?_ofFields (fields : List (Tree × Tree))
    (h : Tree.LegibleFields ReadsBack (fun _ => False) fields) (levels : Nat) :
    toTreeFields? levels (ofFields fields) =
      if Tree.deepestField fields ≤ levels then some fields else none := by
  match fields with
  | [] => rfl
  | (key, value) :: rest =>
      obtain ⟨⟨s, rfl⟩, hvalue, hrest⟩ := h
      rw [ofFields, toTreeFields?, keyOf, text?_pieces, toTree?_ofTree value hvalue,
        toTreeFields?_ofFields rest hrest, Tree.deepestField]
      by_cases hd : value.depth ≤ levels
      · by_cases hr : Tree.deepestField rest ≤ levels
        · rw [if_pos hd, if_pos hr, if_pos (Nat.max_le.mpr ⟨hd, hr⟩)]
        · rw [if_pos hd, if_neg hr, if_neg fun hm => hr (Nat.max_le.mp hm).2]
      · rw [if_neg hd, if_neg fun hm => hd (Nat.max_le.mp hm).1]
end

end Whole

theorem members_placeOf (levels : Nat) (fields : List (String × Tree)) :
    (placeOf (levels + 1) (.record fields)).members =
      pure (fields.map fun field => (field.1, placeOf levels field.2)) := by
  rw [placeOf, Tree.record, ofTree, ofFields_eq, Place.members]
  refine mapM_map_eq_pure fields fun field _ => ?_
  simp only [text?_pieces]
  rfl

theorem fields_placeOf (levels : Nat) (names : List String) (fields : List (String × Tree))
    (h : (fields.map (·.1)).Nodup) :
    (placeOf (levels + 1) (.record fields)).fields names =
      pure (names.map fun name => (fields.lookup name).map (placeOf levels)) := by
  have hmembers := members_placeOf levels fields
  simp only [Place.fields]
  rw [hmembers, pure_bind]
  refine mapM_eq_pure names fun name _ => ?_
  rw [Source.filter_name _ h]
  cases fields.lookup name <;> rfl

-- What was written in JSON is there to be read.
theorem shows : Source.Shows ReadsBack SingleReadsBack placeOf where
  tree levels tree h := by
    show Reading.ofOption (toTree? levels (ofTree tree)) = _
    rw [toTree?_ofTree tree h]
    split <;> rfl
  text levels s := by
    show Reading.ofOption (text? (s.toList.map piece)) = _
    rw [text?_pieces]
    rfl
  variant levels s := by
    show Reading.ofOption (text? (s.toList.map piece)) = _
    rw [text?_pieces]
    rfl
  present levels s := rfl
  natural levels k hk := by
    obtain ⟨numeral, hs, hint⟩ := spells_int (i := k) (by omega) (by omega)
    show (Place.mk levels (valueIn (toString (k : Int)))).natural = _
    simp only [Place.natural, valueIn_of_spells hs, hint]
  single levels x hx := by
    obtain ⟨numeral, hs, hsingle⟩ := spells_single hx
    show (Place.mk levels (valueIn _)).single = _
    rw [valueIn_of_spells hs, hsingle]
  items levels ts := by
    show (pure ((ofTrees ts).map fun item => ⟨levels, item⟩) : Reading (List Place)) = _
    rw [ofTrees_eq, List.map_map]
    rfl
  entries levels fs := members_placeOf levels fs
  fields levels names fs hnodup := fields_placeOf levels names fs hnodup

-- A tree that is written as a document is what a reader finds in it.
theorem read?_pretty {α : Type} (reader : Place → Reading α) {tree : Tree}
    (h : tree.Legible ReadsBack SingleReadsBack) :
    read? reader (pretty 0 tree) = ((reader (placeOf mostLevels tree)) 0).map (·.1) := by
  rw [read?, parse?_of_spells (spells_pretty tree 0 h)]
  show (reader (placeOf mostLevels tree) 0).bind (fun result => some result.1) = _
  rw [Option.map_eq_bind]
  rfl

end Dataflow.Json
