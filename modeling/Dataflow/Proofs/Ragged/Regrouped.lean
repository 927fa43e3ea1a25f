import Dataflow.Proofs.Ragged.Expanded
import Dataflow.Proofs.Ragged.Grouped

namespace Dataflow

-- Nested data in which no list, at any depth, is empty.
def Nested.Occupied {α : Type} (nested : Nested α) : Prop :=
  ∀ path, nested.at? path ≠ some (.list [])

namespace Nested

variable {α β : Type} {nested : Nested α} {children : List (Nested α)}

@[simp]
theorem occupied_leaf (value : α) : (leaf value).Occupied :=
  fun path => at?_leaf_ne_list value path []

@[simp]
theorem occupied_list_iff :
    (list children).Occupied ↔ children ≠ [] ∧ ∀ child ∈ children, child.Occupied := by
  constructor
  · intro h
    refine ⟨fun hnil => ?_, fun child hchild path hempty => ?_⟩
    · exact h [] (by rw [at?_nil, hnil])
    · obtain ⟨i, hi⟩ := exists_at?_of_mem hchild
      exact h (i :: path) ((hi path).trans hempty)
  · intro h path hempty
    obtain ⟨hne, hchildren⟩ := h
    cases path with
    | nil => exact hne (list.inj (eq_of_at?_nil hempty))
    | cons i path =>
        obtain ⟨child, hchild, hempty⟩ := Option.bind_eq_some_iff.mp hempty
        exact hchildren child (List.mem_of_getElem? hchild) path hempty

theorem occupied_blank_iff : nested.blank.Occupied ↔ nested.Occupied := by
  refine forall_congr' fun path => not_congr ?_
  rw [blank, at?_map]
  constructor
  · intro h
    obtain ⟨found, hfound, hempty⟩ := Option.map_eq_some_iff.mp h
    have hblank : found.blank = (list ([] : List (Nested α))).blank := hempty
    obtain ⟨others, rfl, hothers⟩ := list_of_blank hblank
    rw [hfound, List.map_eq_nil_iff.mp hothers]
  · intro h
    rw [h]
    rfl

theorem Occupied.of_blank (h : nested.Occupied) {other : Nested β}
    (hblank : other.blank = nested.blank) : other.Occupied := by
  rwa [← occupied_blank_iff, hblank, occupied_blank_iff]

-- Where groups stand in for leaves there are lists only.
theorem exists_bind_ofList (f : α → List β) (nested : Nested α) :
    ∃ inner, (nested.bind fun value => ofList (f value)) = list inner := by
  cases nested with
  | leaf value => exact ⟨_, rfl⟩
  | list children => exact ⟨_, bind_list _ children⟩

-- Groups that stand in for leaves are the innermost ones, and no list around them is, as
-- each has a list in it.
theorem Occupied.collapse_bind_ofList (h : nested.Occupied) (f : α → List β) :
    (nested.bind fun value => ofList (f value)).collapse = nested.map f := by
  induction nested with
  | leaf value => exact collapse_map_leaf (f value)
  | list children ih =>
      obtain ⟨hne, hchildren⟩ := occupied_list_iff.mp h
      obtain ⟨child, hchild⟩ := List.exists_mem_of_ne_nil _ hne
      obtain ⟨inner, hinner⟩ := exists_bind_ofList f child
      have hmem : list inner ∈ children.map (bind fun value => ofList (f value)) :=
        List.mem_map.mpr ⟨child, hchild, hinner⟩
      rw [bind_list, collapse_of_mem hmem, map_list, List.map_map]
      refine congrArg list (List.map_congr_left fun other hother => ?_)
      exact ih other hother (hchildren other hother)

theorem replaced_numbered_of_blank {other : Nested β} (hblank : other.blank = nested.blank) :
    nested.Replaced ((List.range nested.leaves.length).map leaf) other.numbered := by
  have hbind : other.numbered.bind leaf = other.numbered :=
    eq_of_blank (blank_map id other.numbered) ((leaves_map id other.numbered).trans (List.map_id _))
  have hreplaced := replaced_bind leaf other.numbered
  rw [hbind, leaves_numbered, length_leaves_of_blank hblank] at hreplaced
  apply hreplaced.of_blank
  rw [blank_numbered, hblank]

end Nested

namespace Ragged

variable {shape : Shape} {groups : List (List Value)} {ragged : Ragged}

theorem ofList_leaves_of_mem_blocksFrom {start : Nat} {block : Shape}
    (h : block ∈ blocksFrom start groups) : .ofList block.leaves = block := by
  induction groups generalizing start with
  | nil => cases h
  | cons group rest ih =>
      rcases List.mem_cons.mp h with rfl | h
      · rw [Nested.leaves_ofList]
      · exact ih h

theorem getD_blocksFrom (k : Nat) : (blocksFrom 0 groups)[k]?.getD (.list []) =
    .ofList (((blocksFrom 0 groups).map Nested.leaves)[k]?.getD []) := by
  rw [List.getElem?_map]
  cases hk : (blocksFrom 0 groups)[k]? with
  | none => rfl
  | some block => exact (ofList_leaves_of_mem_blocksFrom (List.mem_of_getElem? hk)).symm

section Expand

variable (h : expand shape groups = .ok ragged) (hshape : shape.Occupied)

include h hshape

-- The innermost level of an expansion is that of the groups, one for each leaf.
theorem collapse_of_expand : ragged.shape.collapse =
    shape.numbered.map fun k => ((blocksFrom 0 groups).map Nested.leaves)[k]?.getD [] := by
  obtain ⟨-, rfl⟩ := expand_eq_ok_iff.mp h
  have hnumbered : shape.numbered.Occupied := hshape.of_blank (Nested.blank_numbered shape)
  simp only [getD_blocksFrom]
  exact hnumbered.collapse_bind_ofList _

theorem groups_of_expand : ragged.groups = (blocksFrom 0 groups).map Nested.leaves := by
  have hlength : shape.leaves.length = ((blocksFrom 0 groups).map Nested.leaves).length := by
    rw [(expand_eq_ok_iff.mp h).1, List.length_map, length_blocksFrom]
  rw [Ragged.groups, collapse_of_expand h hshape, Nested.leaves_map, Nested.leaves_numbered,
    hlength, map_range_getD]

-- Each group of positions is where the values of a group have come to stand.
theorem map_groups_of_expand :
    (ragged.groups.map fun group => group.map fun i => ragged.flat[i]?) =
      groups.map fun group => group.map some := by
  have hc := canonical_of_expand h
  have hvalues :
      (ragged.groups.map fun group => group.map fun i => ragged.flat[i]?.getD .null) = groups := by
    have hblocks := congrArg (List.map Nested.leaves) (map_blocksFrom [] groups)
    simp only [List.map_map, Function.comp_def, Nested.leaves_map, Nested.leaves_ofList,
      List.map_id', List.nil_append, List.length_nil] at hblocks
    rw [groups_of_expand h hshape, (replaced_of_expand h).1, List.map_map]
    exact hblocks
  calc (ragged.groups.map fun group => group.map fun i => ragged.flat[i]?)
      = (ragged.groups.map fun group => group.map fun i => ragged.flat[i]?.getD .null).map
          fun group => group.map some := by
        rw [List.map_map]
        refine List.map_congr_left fun group hgroup => ?_
        rw [Function.comp_apply, List.map_map]
        refine List.map_congr_left fun i hi => ?_
        rw [Function.comp_apply, List.getElem?_eq_getElem (hc.lt_of_mem_groups hgroup hi),
          Option.getD_some]
    _ = groups.map fun group => group.map some := by rw [hvalues]

end Expand

-- Where every list has something in it, groups put in the place of the leaves come out
-- again when the innermost level is folded up, whatever their sizes: what is left is the
-- old nesting with its leaves numbered, and its k-th leaf stands for the positions of the
-- k-th group's values.
theorem expanded_groups_come_out (hshape : shape.Occupied)
    (hgroups : shape.leaves.length = groups.length) :
    ∃ ragged, expand shape groups = .ok ragged ∧
      shape.Replaced ((List.range groups.length).map .leaf) ragged.shapeKeepLast ∧
      (ragged.groups.map fun group => group.map fun i => ragged.flat[i]?) =
        groups.map fun group => group.map some := by
  obtain ⟨ragged, h⟩ := exists_expand hgroups
  refine ⟨ragged, h, ?_, map_groups_of_expand h hshape⟩
  have hblank : ragged.shape.collapse.blank = shape.blank := by
    rw [collapse_of_expand h hshape, Nested.blank_map, Nested.blank_numbered]
  rw [← hgroups]
  exact Nested.replaced_numbered_of_blank hblank

-- Leaves beside lists and below them, with numbers of no order.
private def ranked : Shape :=
  .list [.leaf 7, .list [.leaf 7, .leaf 0]]

-- The group in the middle is empty, and comes out as such.
theorem ranked_groups_come_out : ranked.Occupied ∧ ranked.leaves.length = 3 ∧
    ∃ ragged, expand ranked [[.text "a", .null], [], [.text "b"]] = .ok ragged ∧
      ranked.Replaced [.leaf 0, .leaf 1, .leaf 2] ragged.shapeKeepLast ∧
      (ragged.groups.map fun group => group.map fun i => ragged.flat[i]?) =
        [[some (.text "a"), some .null], [], [some (.text "b")]] := by
  have hshape : ranked.Occupied := by simp [ranked]
  exact ⟨hshape, rfl, expanded_groups_come_out hshape rfl⟩

end Ragged

end Dataflow
