import Dataflow.Proofs.Yaml.Document
import Dataflow.Yaml.Place

namespace Dataflow.Yaml

-- The place where a tree stands as it was written.
def placeOf (document : Document) (levels : Nat) (tree : Tree) : Place :=
  ⟨document, levels, some (nodeOf tree)⟩

theorem nodesOf_eq (items : List Tree) : nodesOf items = items.map nodeOf := by
  induction items with
  | nil => rfl
  | cons item rest ih => rw [nodesOf, ih, List.map_cons]

-- A plain scalar is read by the look of it.
theorem scalarTree?_plain (text : List Char) :
    scalarTree? none .plain text =
      match resolve text with
      | .null => some .null
      | .bool truth => some (.bool truth)
      | .int i => some (.int i)
      | .hugeInt => none
      | .float x => some (.float x)
      | .text => some (.text (String.ofList text)) := rfl

-- A text is read as such in the style that was chosen for it.
theorem scalarTree?_styled (simpleKey : Bool) (s : String) :
    scalarTree? none (chosenStyle (traits s.toList) simpleKey s.toList) s.toList =
      some (.text s) := by
  obtain ⟨hplain, -, -, -⟩ := chosenStyle_spec (traits s.toList) simpleKey s.toList
  have htext : some (Tree.text (String.ofList s.toList)) = some (.text s) := by
    rw [String.ofList_toList]
  cases hstyle : chosenStyle (traits s.toList) simpleKey s.toList with
  | plain => rw [scalarTree?_plain, resolve_of_plain (hplain hstyle).1, htext]
  | singleQuoted | doubleQuoted | literal | folded => exact htext

section Whole

variable {document : Document}

theorem nodeTree_scalar (levels : Nat) (style : Style) (text : List Char) :
    nodeTree document levels (.scalar none style text) =
      Reading.ofOption (scalarTree? none style text) := by
  cases levels <;> rfl

theorem nodeTree_key (levels : Nat) (s : String) :
    nodeTree document levels (scalarNode (keyToken (.text s))) = pure (.text s) := by
  rw [keyToken, scalarNode, nodeTree_scalar, scalarTree?_styled]
  rfl

section Within

variable {α β γ : Type} {depth other levels : Nat}

-- What is read within a number of levels is read one level deeper within one more,
theorem bind_within (a : α) (f : α → β) :
    ((if depth ≤ levels then pure a else Reading.refuse) >>= fun a => pure (f a)) =
      if 1 + depth ≤ levels + 1 then pure (f a) else Reading.refuse := by
  by_cases h : depth ≤ levels
  · rw [if_pos h, if_pos (by omega), pure_bind]
  · rw [if_neg h, if_neg (by omega)]
    rfl

-- and two things are read where both are.
theorem bind_within_max (a : α) (b : β) (f : α → β → γ) :
    ((if depth ≤ levels then pure a else Reading.refuse) >>= fun a =>
      (if other ≤ levels then pure b else Reading.refuse) >>= fun b => pure (f a b)) =
      if max depth other ≤ levels then pure (f a b) else Reading.refuse := by
  by_cases h : depth ≤ levels
  · by_cases hother : other ≤ levels
    · rw [if_pos h, if_pos hother, if_pos (Nat.max_le.mpr ⟨h, hother⟩)]
      rfl
    · rw [if_pos h, if_neg hother, if_neg fun hm => hother (Nat.max_le.mp hm).2]
      rfl
  · rw [if_neg h, if_neg fun hm => h (Nat.max_le.mp hm).1]
    rfl

end Within

mutual
theorem nodeTree_nodeOf (tree : Tree) (h : tree.Legible ReadsBack fun _ => False) (levels : Nat) :
    nodeTree document levels (nodeOf tree) =
      if tree.depth ≤ levels then pure tree else Reading.refuse := by
  have hleaf : ∀ (style : Style) (text : List Char), tree.depth = 0 →
      nodeOf tree = .scalar none style text → scalarTree? none style text = some tree →
      nodeTree document levels (nodeOf tree) =
        if tree.depth ≤ levels then pure tree else Reading.refuse := by
    intro style text hdepth hnode hread
    rw [hnode, nodeTree_scalar, hread, if_pos (hdepth ▸ Nat.zero_le _)]
    rfl
  match tree with
  | .null => exact hleaf .plain "null".toList rfl rfl rfl
  | .bool true => exact hleaf .plain "true".toList rfl rfl rfl
  | .bool false => exact hleaf .plain "false".toList rfl rfl rfl
  | .int i =>
      refine hleaf .plain (toString i).toList rfl rfl ?_
      rw [scalarTree?_plain, (resolve_toString h.1 h.2).2.1]
  | .float x =>
      have hread : resolve (doubleLayout.writeFloat x).toList = .float x := h
      refine hleaf .plain (doubleLayout.writeFloat x).toList rfl rfl ?_
      rw [scalarTree?_plain, hread]
  | .single x => exact h.elim
  | .text s => exact hleaf _ _ rfl rfl (scalarTree?_styled false s)
  | .seq items =>
      rw [nodeOf, Tree.depth]
      cases levels with
      | zero =>
          rw [if_neg (by omega)]
          rfl
      | succ levels =>
          have hread : nodeTree document (levels + 1) (.sequence none (nodesOf items)) =
              (do return .seq (← (nodesOf items).mapM (nodeTree document levels))) := rfl
          rw [hread, mapM_nodesOf items h levels]
          exact bind_within items Tree.seq
  | .map fields =>
      rw [nodeOf, Tree.depth]
      cases levels with
      | zero =>
          rw [if_neg (by omega)]
          rfl
      | succ levels =>
          have hread : nodeTree document (levels + 1) (.mapping none (entriesOf fields)) =
              (do return .map (← (entriesOf fields).mapM fun entry => do
                pure (← nodeTree document levels entry.1,
                  ← nodeTree document levels entry.2))) := rfl
          rw [hread, mapM_entriesOf fields h levels]
          exact bind_within fields Tree.map

theorem mapM_nodesOf (items : List Tree) (h : Tree.LegibleAll ReadsBack (fun _ => False) items)
    (levels : Nat) :
    (nodesOf items).mapM (nodeTree document levels) =
      if Tree.deepest items ≤ levels then pure items else Reading.refuse := by
  match items with
  | [] =>
      rw [Tree.deepest, if_pos (Nat.zero_le _)]
      rfl
  | item :: rest =>
      rw [nodesOf, List.mapM_cons, nodeTree_nodeOf item h.1, mapM_nodesOf rest h.2, Tree.deepest]
      exact bind_within_max item rest List.cons

theorem mapM_entriesOf (fields : List (Tree × Tree))
    (h : Tree.LegibleFields ReadsBack (fun _ => False) fields) (levels : Nat) :
    ((entriesOf fields).mapM fun entry => do
      pure (← nodeTree document levels entry.1, ← nodeTree document levels entry.2)) =
      if Tree.deepestField fields ≤ levels then pure fields else Reading.refuse := by
  match fields with
  | [] =>
      rw [Tree.deepestField, if_pos (Nat.zero_le _)]
      rfl
  | (key, value) :: rest =>
      obtain ⟨⟨s, rfl⟩, hvalue, hrest⟩ := h
      rw [entriesOf, List.mapM_cons, nodeTree_key, nodeTree_nodeOf value hvalue,
        mapM_entriesOf rest hrest, Tree.deepestField, pure_bind, bind_assoc]
      simp only [pure_bind]
      exact bind_within_max value rest fun value rest => (.text s, value) :: rest
end

end Whole

section Places

variable (document : Document) (levels : Nat)

theorem text_placeOf (s : String) : (placeOf document levels (.text s)).text = pure s := by
  have hread : (placeOf document levels (.text s)).text = pure (String.ofList s.toList) := rfl
  rw [hread, String.ofList_toList]

theorem optional_placeOf (s : String) :
    (placeOf document levels (.text s)).optional =
      pure (some (placeOf document levels (.text s))) := by
  obtain ⟨hplain, -, -, -⟩ := chosenStyle_spec (traits s.toList) false s.toList
  cases hstyle : chosenStyle (traits s.toList) false s.toList with
  | plain =>
      have hresolve := resolve_of_plain (hplain hstyle).1
      have hword : (s.toList.isEmpty || isNullWord s.toList) = false := by
        cases hnull : s.toList.isEmpty || isNullWord s.toList with
        | false => rfl
        | true =>
            rw [resolve, if_pos hnull] at hresolve
            cases hresolve
      have hnode : nodeOf (.text s) = .scalar none .plain s.toList := by
        show Node.scalar none (chosenStyle (traits s.toList) false s.toList) s.toList = _
        rw [hstyle]
      have hread : (Place.mk document levels (some (.scalar none .plain s.toList))).optional =
          if s.toList.isEmpty || isNullWord s.toList then pure none
          else pure (some ⟨document, levels, some (.scalar none .plain s.toList)⟩) := rfl
      rw [placeOf, hnode, hread, hword]
      rfl
  | singleQuoted | doubleQuoted | literal | folded =>
      have hnode : nodeOf (.text s) =
          .scalar none (chosenStyle (traits s.toList) false s.toList) s.toList := rfl
      rw [placeOf, hnode, hstyle]
      rfl

theorem entries_placeOf (fields : List (String × Tree)) :
    (placeOf document (levels + 1) (.record fields)).entries =
      pure (fields.map fun field => (field.1, placeOf document levels field.2)) := by
  have hentries : entriesOf (fields.map fun field => (Tree.text field.1, field.2)) =
      fields.map fun field => (scalarNode (keyToken (.text field.1)), nodeOf field.2) := by
    induction fields with
    | nil => rfl
    | cons field rest ih => rw [List.map_cons, entriesOf, ih, List.map_cons]
  have hread : (placeOf document (levels + 1) (.record fields)).entries =
      (entriesOf (fields.map fun field => (Tree.text field.1, field.2))).mapM (fun entry => do
        return (← Place.text ⟨document, levels, some entry.1⟩,
          ⟨document, levels, some entry.2⟩)) := rfl
  rw [hread, hentries]
  refine mapM_map_eq_pure fields fun field _ => ?_
  have hkey : Place.text ⟨document, levels, some (scalarNode (keyToken (.text field.1)))⟩ =
      pure (String.ofList field.1.toList) := rfl
  rw [hkey, String.ofList_toList]
  rfl

theorem fields_placeOf (names : List String) (fields : List (String × Tree))
    (h : (fields.map (·.1)).Nodup) :
    (placeOf document (levels + 1) (.record fields)).fields names =
      pure (names.map fun name => (fields.lookup name).map (placeOf document levels)) := by
  have hentries := entries_placeOf document levels fields
  simp only [Place.fields]
  rw [hentries, pure_bind]
  refine mapM_eq_pure names fun name _ => ?_
  rw [Source.filter_name _ h]
  cases fields.lookup name <;> rfl

end Places

-- What was written in YAML is there to be read.
theorem shows (document : Document) :
    Source.Shows ReadsBack SingleReadsBack (placeOf document) where
  tree levels tree h := nodeTree_nodeOf tree h levels
  text levels s := text_placeOf document levels s
  variant levels s := text_placeOf document levels s
  present levels s := optional_placeOf document levels s
  natural levels k hk := by
    have hread := (@resolve_toString k (by omega) (by omega)).2.2 (by omega)
    show Reading.ofOption (unsigned? (Nat.pow 2 64) (toString (k : Int)).toList) = _
    rw [hread]
    rfl
  single levels x hx := by
    have hread : (float? (singleLayout.writeFloat32 x).toList).map Binary.narrow = some x := hx
    show Reading.ofOption ((float? (singleLayout.writeFloat32 x).toList).map Binary.narrow) = _
    rw [hread]
    rfl
  items levels ts := by
    show (pure ((nodesOf ts).map fun item => ⟨document, levels, some item⟩) :
      Reading (List Place)) = _
    rw [nodesOf_eq, List.map_map]
    rfl
  entries levels fs := entries_placeOf document levels fs
  fields levels names fs hnodup := fields_placeOf document levels names fs hnodup

-- A tree that is written as a document is what a reader finds in it.
theorem read?_print {α : Type} (reader : Place → Reading α) {field : Tree × Tree}
    {rest : List (Tree × Tree)} (h : (Tree.map (field :: rest)).Legible ReadsBack SingleReadsBack) :
    ∃ document, read? reader (print (.map (field :: rest))) =
      ((reader (placeOf document mostLevels (.map (field :: rest)))) 0).map (·.1) := by
  obtain ⟨document, hdocument, hroot⟩ := document?_print field rest h
  refine ⟨document, ?_⟩
  rw [read?, hdocument]
  show (reader ⟨document, mostLevels, document.root⟩ 0).bind (fun result => some result.1) = _
  rw [hroot, Option.map_eq_bind]
  rfl

end Dataflow.Yaml
