import Dataflow.Proofs.Ragged.Canonical

namespace Dataflow

-- How nested data reads from left to right: the members of a list one after the other,
-- each of them read to its end before the next begins.
inductive Nested.DepthFirst {α : Type} : Nested α → List α → Prop where
  | leaf (value : α) : DepthFirst (.leaf value) [value]
  | nil : DepthFirst (.list []) []
  | cons {child : Nested α} {rest : List (Nested α)} {first others : List α} :
      DepthFirst child first → DepthFirst (.list rest) others →
        DepthFirst (.list (child :: rest)) (first ++ others)

-- Nested data whose leaves, from left to right, have given way to the items of a list.
inductive Nested.Replaced {α β : Type} : Nested α → List (Nested β) → Nested β → Prop where
  | leaf (value : α) (item : Nested β) : Replaced (.leaf value) [item] item
  | nil : Replaced (.list []) [] (.list [])
  | cons {child : Nested α} {rest : List (Nested α)} {first others results : List (Nested β)}
      {result : Nested β} : Replaced child first result →
        Replaced (.list rest) others (.list results) →
        Replaced (.list (child :: rest)) (first ++ others) (.list (result :: results))

namespace Nested

variable {α : Type} {nested : Nested α} {row : List α}

theorem DepthFirst.leaves_eq (h : nested.DepthFirst row) : nested.leaves = row := by
  induction h with
  | leaf value => rfl
  | nil => rfl
  | cons _ _ hfirst hothers =>
      rw [leaves_list] at hothers ⊢
      rw [List.flatMap_cons, hfirst, hothers]

theorem depthFirst_list {children : List (Nested α)}
    (h : ∀ child ∈ children, child.DepthFirst child.leaves) :
    (list children).DepthFirst (children.flatMap leaves) := by
  induction children with
  | nil => exact .nil
  | cons child rest ih =>
      obtain ⟨hchild, hrest⟩ := List.forall_mem_cons.mp h
      exact .cons hchild (ih hrest)

theorem depthFirst_leaves (nested : Nested α) : nested.DepthFirst nested.leaves := by
  induction nested with
  | leaf value => exact .leaf value
  | list children ih =>
      rw [leaves_list]
      exact depthFirst_list ih

theorem depthFirst_iff : nested.DepthFirst row ↔ nested.leaves = row :=
  ⟨DepthFirst.leaves_eq, fun h => h ▸ depthFirst_leaves nested⟩

-- The numbers, read as positions in the row of leaves, give the leaves back.
theorem map_numbered (nested : Nested α) (default : α) :
    nested.numbered.map (fun k => nested.leaves[k]?.getD default) = nested := by
  apply eq_of_blank
  · rw [blank_map, blank_numbered]
  · rw [leaves_map, leaves_numbered, Ragged.map_range_getD]

section Replaced

variable {β γ : Type} {items : List (Nested β)} {result : Nested β}

theorem replaced_list {f : α → Nested β} {children : List (Nested α)}
    (h : ∀ child ∈ children, child.Replaced (child.leaves.map f) (child.bind f)) :
    (list children).Replaced ((children.flatMap leaves).map f) (list (children.map (bind f))) := by
  induction children with
  | nil => exact .nil
  | cons child rest ih =>
      obtain ⟨hchild, hrest⟩ := List.forall_mem_cons.mp h
      rw [List.flatMap_cons, List.map_append]
      exact .cons hchild (ih hrest)

theorem replaced_bind (f : α → Nested β) (nested : Nested α) :
    nested.Replaced (nested.leaves.map f) (nested.bind f) := by
  induction nested with
  | leaf value => exact .leaf value (f value)
  | list children ih =>
      rw [leaves_list, bind_list]
      exact replaced_list ih

-- What the leaves were does not matter.
theorem Replaced.of_blank (h : nested.Replaced items result) {other : Nested γ}
    (hblank : other.blank = nested.blank) : other.Replaced items result := by
  induction h generalizing other with
  | leaf value item =>
      obtain ⟨value', rfl⟩ := leaf_of_blank hblank
      exact .leaf value' item
  | nil =>
      obtain ⟨others, rfl, hothers⟩ := list_of_blank hblank
      rw [List.map_eq_nil_iff.mp hothers]
      exact .nil
  | cons _ _ ihchild ihrest =>
      obtain ⟨others, rfl, hothers⟩ := list_of_blank hblank
      obtain ⟨head, tail, rfl, hhead, htail⟩ := List.map_eq_cons_iff.mp hothers
      apply Replaced.cons (ihchild hhead)
      apply ihrest
      rw [blank_list, blank_list, htail]

theorem replaced_numbered {nested : Nested α} (h : nested.leaves.length = items.length)
    (default : Nested β) :
    nested.Replaced items (nested.numbered.bind fun k => items[k]?.getD default) := by
  have hnumbered := replaced_bind (fun k => items[k]?.getD default) nested.numbered
  rw [leaves_numbered, h, Ragged.map_range_getD] at hnumbered
  exact hnumbered.of_blank (blank_numbered nested).symm

end Replaced

end Nested

namespace Ragged

variable {ragged : Ragged}

theorem canonical_iff_depthFirst :
    ragged.Canonical ↔ ragged.shape.DepthFirst (List.range ragged.flat.length) :=
  Nested.depthFirst_iff.symm

@[simp]
theorem blank_toNested (ragged : Ragged) : ragged.toNested.blank = ragged.shape.blank :=
  Nested.blank_map _ _

-- Where the leaves of the shape are the positions in order, the row is read as it stands.
theorem Canonical.leaves_toNested (hc : ragged.Canonical) :
    ragged.toNested.leaves = ragged.flat := by
  simp only [toNested, Nested.leaves_map, List.getElem?_toArray]
  rw [hc, map_range_getD]

theorem toNested_ofNested (nested : Nested Value) : (ofNested nested).toNested = nested := by
  simp only [toNested, ofNested, List.getElem?_toArray]
  exact Nested.map_numbered nested .null

theorem Canonical.ofNested_toNested (hc : ragged.Canonical) :
    ofNested ragged.toNested = ragged := by
  rw [ofNested, hc.leaves_toNested, Nested.numbered_eq (blank_toNested ragged) hc]

-- Nested values and canonical pairs of a row and a shape are two ways to write the same:
-- going over to the other one and back changes nothing, on either side, and the row is
-- what the nested values read from left to right.
theorem nested_and_row_are_inverse :
    (∀ nested : Nested Value, (ofNested nested).toNested = nested ∧
      nested.DepthFirst (ofNested nested).flat ∧ (ofNested nested).Canonical) ∧
    ∀ ragged : Ragged, ragged.shape.DepthFirst (List.range ragged.flat.length) →
      ofNested ragged.toNested = ragged := by
  constructor
  · intro nested
    exact ⟨toNested_ofNested nested, Nested.depthFirst_leaves nested, canonical_ofNested nested⟩
  · intro ragged hdepth
    exact (canonical_iff_depthFirst.mpr hdepth).ofNested_toNested

-- Two groups, the second one empty, and a bare leaf behind them.
private def uneven : Ragged :=
  ⟨[.text "a", .null, .text "b"], .list [.list [.leaf 0, .leaf 1], .list [], .leaf 2]⟩

theorem uneven_nested_and_back :
    uneven.shape.DepthFirst (List.range 3) ∧ ofNested uneven.toNested = uneven := by
  have hdepth : uneven.shape.DepthFirst (List.range uneven.flat.length) :=
    canonical_iff_depthFirst.mp rfl
  exact ⟨hdepth, nested_and_row_are_inverse.2 uneven hdepth⟩

end Ragged

end Dataflow
