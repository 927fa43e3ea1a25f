import Dataflow.Nested
import Mathlib.Data.List.Basic

namespace Dataflow.Nested

variable {α β : Type}

-- What holds of every leaf, and of every list whose children it holds of, holds of all.
@[elab_as_elim, induction_eliminator]
theorem induction {motive : Nested α → Prop} (leaf : ∀ value, motive (leaf value))
    (list : ∀ children, (∀ child ∈ children, motive child) → motive (list children))
    (nested : Nested α) : motive nested :=
  @Nested.rec α motive (fun children => ∀ child ∈ children, motive child) leaf list
    (by simp) (fun _ _ hchild hrest => List.forall_mem_cons.mpr ⟨hchild, hrest⟩) nested

section Leaves

mutual
theorem pushLeaves_eq {α : Type} (done : List α) (nested : Nested α) :
    nested.pushLeaves done = nested.leaves.reverse ++ done := by
  match nested with
  | leaf value => rfl
  | list children =>
      rw [leaves, List.reverse_reverse, pushLeaves, pushLeaves, pushLeavesAll_eq done,
        pushLeavesAll_eq [], List.append_nil]

theorem pushLeavesAll_eq {α : Type} (done : List α) (children : List (Nested α)) :
    pushLeavesAll done children = (children.flatMap leaves).reverse ++ done := by
  match children with
  | [] => rfl
  | child :: rest =>
      rw [pushLeavesAll, pushLeavesAll_eq _ rest, pushLeaves_eq done child, List.flatMap_cons,
        List.reverse_append, List.append_assoc]
end

@[simp]
theorem leaves_leaf (value : α) : (leaf value).leaves = [value] := rfl

@[simp]
theorem leaves_list (children : List (Nested α)) :
    (list children).leaves = children.flatMap leaves := by
  rw [leaves, pushLeaves, pushLeavesAll_eq, List.append_nil, List.reverse_reverse]

@[simp]
theorem leaves_ofList (values : List α) : (ofList values).leaves = values := by
  rw [ofList, leaves_list, List.flatMap_map]
  simp

theorem countLeaves_eq {children : List (Nested α)}
    (h : ∀ child ∈ children, child.leafCount = child.leaves.length) (sum : Nat) :
    countLeaves sum children = sum + (children.flatMap leaves).length := by
  induction children generalizing sum with
  | nil => rfl
  | cons child rest ih =>
      obtain ⟨hchild, hrest⟩ := List.forall_mem_cons.mp h
      rw [countLeaves, ih hrest, hchild, List.flatMap_cons, List.length_append, Nat.add_assoc]

@[simp]
theorem leafCount_eq (nested : Nested α) : nested.leafCount = nested.leaves.length := by
  induction nested with
  | leaf value => rfl
  | list children ih => rw [leafCount, countLeaves_eq ih, leaves_list, Nat.zero_add]

end Leaves

section Bind

theorem bindAll_eq (f : α → Nested β) (done : List (Nested β)) (children : List (Nested α)) :
    bindAll f done children = done.reverse ++ children.map (bind f) := by
  induction children generalizing done with
  | nil => simp [bindAll]
  | cons child rest ih => simp [bindAll, ih]

theorem bind_list (f : α → Nested β) (children : List (Nested α)) :
    bind f (list children) = list (children.map (bind f)) := by
  rw [bind, bindAll_eq, List.reverse_nil, List.nil_append]

-- The leaves of what stands in for a leaf take its place.
theorem leaves_bind (f : α → Nested β) (nested : Nested α) :
    (bind f nested).leaves = nested.leaves.flatMap fun value => (f value).leaves := by
  induction nested with
  | leaf value => simp [bind]
  | list children ih =>
      rw [bind_list, leaves_list, leaves_list, List.flatMap_map, List.flatMap_assoc]
      exact List.flatMap_congr ih

@[simp]
theorem leaves_graft (nested : Nested α) : nested.graft.leaves = nested.leaves := by
  rw [graft, leaves_bind]
  simp

theorem map_list (f : α → β) (children : List (Nested α)) :
    map f (list children) = list (children.map (map f)) :=
  bind_list _ children

theorem map_ofList (f : α → β) (values : List α) : (ofList values).map f = ofList (values.map f) := by
  rw [ofList, map_list, ofList, List.map_map, List.map_map]
  rfl

theorem map_bind {γ : Type} (g : β → γ) (f : α → Nested β) (nested : Nested α) :
    (nested.bind f).map g = nested.bind fun value => (f value).map g := by
  induction nested with
  | leaf value => rfl
  | list children ih =>
      rw [bind_list, map_list, bind_list, List.map_map]
      exact congrArg _ (List.map_congr_left ih)

theorem bind_congr {f g : α → Nested β} {nested : Nested α}
    (h : ∀ value ∈ nested.leaves, f value = g value) : nested.bind f = nested.bind g := by
  induction nested with
  | leaf value => exact h value (by simp)
  | list children ih =>
      rw [bind_list, bind_list]
      refine congrArg _ (List.map_congr_left fun child hchild => ih child hchild ?_)
      intro value hvalue
      apply h
      rw [leaves_list]
      exact List.mem_flatMap.mpr ⟨child, hchild, hvalue⟩

@[simp]
theorem leaves_map (f : α → β) (nested : Nested α) :
    (nested.map f).leaves = nested.leaves.map f := by
  rw [map, leaves_bind, List.map_eq_flatMap]
  rfl

end Bind

section Numbers

theorem leaves_numberAllFrom {children : List (Nested α)}
    (h : ∀ child ∈ children, ∀ start,
      (numberFrom start child).leaves = List.range' start child.leaves.length)
    (start : Nat) (done : List (Nested Nat)) :
    (numberAllFrom start done children).flatMap leaves =
      done.reverse.flatMap leaves ++ List.range' start (children.flatMap leaves).length := by
  induction children generalizing start done with
  | nil => simp [numberAllFrom]
  | cons child rest ih =>
      obtain ⟨hchild, hrest⟩ := List.forall_mem_cons.mp h
      rw [numberAllFrom, ih hrest, List.reverse_cons, List.flatMap_append, List.append_assoc]
      simp only [List.flatMap_cons, List.flatMap_nil, List.append_nil, List.length_append,
        hchild, leafCount_eq, List.range'_append_1]

theorem leaves_numberFrom (start : Nat) (nested : Nested α) :
    (numberFrom start nested).leaves = List.range' start nested.leaves.length := by
  induction nested generalizing start with
  | leaf value => simp [numberFrom]
  | list children ih =>
      rw [numberFrom, leaves_list, leaves_numberAllFrom ih, leaves_list]
      rfl

@[simp]
theorem leaves_numbered (nested : Nested α) :
    nested.numbered.leaves = List.range nested.leaves.length := by
  rw [numbered, leaves_numberFrom, List.range_eq_range']

end Numbers

section Blank

-- The nesting alone, with nothing at its leaves.
def blank (nested : Nested α) : Nested Unit :=
  nested.map fun _ => ()

theorem blank_list (children : List (Nested α)) :
    (list children).blank = list (children.map blank) :=
  map_list _ children

theorem length_leaves_of_blank {nested : Nested α} {other : Nested β}
    (h : nested.blank = other.blank) : nested.leaves.length = other.leaves.length := by
  have hleaves := congrArg (·.leaves.length) h
  simpa [blank] using hleaves

@[simp]
theorem blank_map (f : α → β) (nested : Nested α) : (nested.map f).blank = nested.blank :=
  map_bind _ _ nested

theorem blank_numberAllFrom {children : List (Nested α)}
    (h : ∀ child ∈ children, ∀ start, (numberFrom start child).blank = child.blank)
    (start : Nat) (done : List (Nested Nat)) :
    (numberAllFrom start done children).map blank =
      done.reverse.map blank ++ children.map blank := by
  induction children generalizing start done with
  | nil => simp [numberAllFrom]
  | cons child rest ih =>
      obtain ⟨hchild, hrest⟩ := List.forall_mem_cons.mp h
      rw [numberAllFrom, ih hrest, List.reverse_cons, List.map_append, List.append_assoc]
      simp [hchild]

theorem blank_numberFrom (start : Nat) (nested : Nested α) :
    (numberFrom start nested).blank = nested.blank := by
  induction nested generalizing start with
  | leaf value => rfl
  | list children ih =>
      rw [numberFrom, blank_list, blank_list, blank_numberAllFrom ih]
      rfl

@[simp]
theorem blank_numbered (nested : Nested α) : nested.numbered.blank = nested.blank :=
  blank_numberFrom 0 nested

theorem all_eq_of_blank {children others : List (Nested α)}
    (h : ∀ child ∈ children, ∀ other : Nested α,
      child.blank = other.blank → child.leaves = other.leaves → child = other)
    (hblank : children.map blank = others.map blank)
    (hleaves : children.flatMap leaves = others.flatMap leaves) : children = others := by
  induction children generalizing others with
  | nil => exact (List.map_eq_nil_iff.mp hblank.symm).symm
  | cons child rest ih =>
      cases others with
      | nil => cases hblank
      | cons other others =>
          obtain ⟨hchild, hrest⟩ := List.forall_mem_cons.mp h
          obtain ⟨hhead, htail⟩ := List.cons.inj hblank
          -- the leaves of the first child end where those of the other one end
          obtain ⟨hfirst, hothers⟩ := List.append_inj hleaves (length_leaves_of_blank hhead)
          rw [hchild other hhead hfirst, ih hrest htail hothers]

-- What has the nesting of a leaf is a leaf, and what has that of a list is a list.
theorem leaf_of_blank {value : α} {other : Nested β} (h : other.blank = (leaf value).blank) :
    ∃ value', other = leaf value' := by
  cases other with
  | leaf value' => exact ⟨value', rfl⟩
  | list others =>
      rw [blank_list] at h
      cases h

theorem list_of_blank {children : List (Nested α)} {other : Nested β}
    (h : other.blank = (list children).blank) :
    ∃ others, other = list others ∧ others.map blank = children.map blank := by
  rw [blank_list] at h
  cases other with
  | leaf value => cases h
  | list others =>
      rw [blank_list] at h
      exact ⟨others, rfl, list.inj h⟩

-- A nesting and a row of leaves leave no choice.
theorem eq_of_blank {nested other : Nested α} (hblank : nested.blank = other.blank)
    (hleaves : nested.leaves = other.leaves) : nested = other := by
  induction nested generalizing other with
  | leaf value =>
      obtain ⟨value', rfl⟩ := leaf_of_blank hblank.symm
      rw [List.singleton_inj.mp hleaves]
  | list children ih =>
      obtain ⟨others, rfl, hothers⟩ := list_of_blank hblank.symm
      rw [leaves_list, leaves_list] at hleaves
      exact congrArg list (all_eq_of_blank (fun child hmem _ => ih child hmem) hothers.symm hleaves)

-- Numbering the leaves makes the one shape of that nesting whose leaves are in order.
theorem numbered_eq {nested : Nested α} {shape : Nested Nat} {size : Nat}
    (hblank : nested.blank = shape.blank) (hleaves : shape.leaves = List.range size) :
    nested.numbered = shape := by
  apply eq_of_blank
  · rw [blank_numbered, hblank]
  · rw [leaves_numbered, length_leaves_of_blank hblank, hleaves, List.length_range]

end Blank

section Reshape

@[simp]
theorem leaves_flatten (nested : Nested α) : nested.flatten.leaves = nested.leaves := by
  cases nested with
  | leaf value => rfl
  | list children =>
      rw [flatten, leaves_list, leaves_list, List.flatMap_assoc]
      refine List.flatMap_congr fun child _ => ?_
      cases child with
      | leaf value => simp [spliced]
      | list inner => rw [spliced, leaves_list]

theorem simplifyAll_eq (done children : List (Nested α)) :
    simplifyAll done children = done.reverse ++ children.map simplify := by
  induction children generalizing done with
  | nil => simp [simplifyAll]
  | cons child rest ih => simp [simplifyAll, ih]

-- A list is simplified to its only child if that is a list, and child by child otherwise.
theorem simplify_list (children : List (Nested α)) :
    (∃ inner, children = [list inner] ∧ (list children).simplify = (list inner).simplify) ∨
      (∀ inner, children ≠ [list inner]) ∧
        (list children).simplify = list (children.map simplify) := by
  by_cases h : ∃ inner, children = [list inner]
  · obtain ⟨inner, rfl⟩ := h
    exact .inl ⟨inner, rfl, by rw [simplify]⟩
  · right
    push Not at h
    rw [simplify, simplifyAll_eq, List.reverse_nil, List.nil_append]
    · exact ⟨h, rfl⟩
    · exact h

@[simp]
theorem leaves_simplify (nested : Nested α) : nested.simplify.leaves = nested.leaves := by
  induction nested with
  | leaf value => simp [simplify]
  | list children ih =>
      rcases simplify_list children with ⟨inner, rfl, heq⟩ | ⟨-, heq⟩
      · rw [heq, ih _ (List.mem_singleton_self _)]
        simp
      · rw [heq, leaves_list, leaves_list, List.flatMap_map]
        exact List.flatMap_congr ih

end Reshape

section Depth

theorem deepest_le_iff {most bound : Nat} {children : List (Nested α)} :
    deepest most children ≤ bound ↔ most ≤ bound ∧ ∀ child ∈ children, child.depth ≤ bound := by
  induction children generalizing most with
  | nil => simp [deepest]
  | cons child rest ih => rw [deepest, ih, Nat.max_le, List.forall_mem_cons, and_assoc]

theorem depth_list_le_iff {children : List (Nested α)} {bound : Nat} :
    (list children).depth ≤ bound + 1 ↔ ∀ child ∈ children, child.depth ≤ bound := by
  rw [depth, Nat.add_comm, Nat.add_le_add_iff_right, deepest_le_iff]
  simp

theorem one_le_depth_list (children : List (Nested α)) : 1 ≤ (list children).depth := by
  rw [depth]
  omega

theorem depth_lt_of_mem {child : Nested α} {children : List (Nested α)} (h : child ∈ children) :
    child.depth < (list children).depth := by
  have hlist := one_le_depth_list children
  have hle : (list children).depth ≤ (list children).depth - 1 + 1 := by omega
  have hchild := depth_list_le_iff.mp hle child h
  omega

theorem deepest_map {f : Nested α → Nested β} {children : List (Nested α)}
    (h : ∀ child ∈ children, (f child).depth = child.depth) (most : Nat) :
    deepest most (children.map f) = deepest most children := by
  induction children generalizing most with
  | nil => rfl
  | cons child rest ih =>
      obtain ⟨hchild, hrest⟩ := List.forall_mem_cons.mp h
      rw [List.map_cons, deepest, deepest, hchild, ih hrest]

@[simp]
theorem depth_map (f : α → β) (nested : Nested α) : (nested.map f).depth = nested.depth := by
  induction nested with
  | leaf value => rfl
  | list children ih => rw [map_list, depth, depth, deepest_map ih]

theorem depth_eq_of_blank {nested : Nested α} {other : Nested β}
    (h : nested.blank = other.blank) : nested.depth = other.depth := by
  have hdepth := congrArg depth h
  simpa [blank] using hdepth

end Depth

section Collapse

theorem collapseAll_eq (done : List (Nested (List α))) (children : List (Nested α)) :
    collapseAll done children = done.reverse ++ children.map collapse := by
  induction children generalizing done with
  | nil => simp [collapseAll]
  | cons child rest ih => simp [collapseAll, ih]

theorem exists_of_all_isLeaf {children : List (Nested α)} (h : children.all isLeaf = true) :
    ∃ values : List α, children = values.map leaf := by
  induction children with
  | nil => exact ⟨[], rfl⟩
  | cons child rest ih =>
      rw [List.all_cons, Bool.and_eq_true] at h
      obtain ⟨values, rfl⟩ := ih h.2
      cases child with
      | leaf value => exact ⟨value :: values, rfl⟩
      | list inner => cases h.1

-- A list without lists becomes one leaf, and any other keeps its place.
theorem collapse_list (children : List (Nested α)) :
    (∃ values : List α, children = values.map leaf ∧ (list children).collapse = leaf values) ∨
      (∃ inner, list inner ∈ children) ∧
        (list children).collapse = list (children.map collapse) := by
  by_cases h : children.all isLeaf = true
  · left
    obtain ⟨values, rfl⟩ := exists_of_all_isLeaf h
    refine ⟨values, rfl, ?_⟩
    have hleaves := leaves_ofList values
    rw [ofList, leaves_list] at hleaves
    rw [collapse, if_pos h, pushLeavesAll_eq, List.append_nil, List.reverse_reverse, hleaves]
  · right
    refine ⟨?_, ?_⟩
    · rw [List.all_eq_true] at h
      push Not at h
      obtain ⟨child, hmem, hchild⟩ := h
      cases child with
      | leaf value => exact absurd rfl hchild
      | list inner => exact ⟨inner, hmem⟩
    · rw [collapse, if_neg h, collapseAll_eq, List.reverse_nil, List.nil_append]

theorem list_not_mem_map_leaf (inner : List (Nested α)) (values : List α) :
    list inner ∉ values.map leaf := by
  intro h
  obtain ⟨value, -, hvalue⟩ := List.mem_map.mp h
  cases hvalue

theorem collapse_map_leaf (values : List α) : (list (values.map leaf)).collapse = leaf values := by
  rcases collapse_list (values.map leaf) with ⟨others, heq, hcollapse⟩ | ⟨⟨inner, hmem⟩, -⟩
  · rw [hcollapse, List.map_injective_iff.mpr (fun _ _ => leaf.inj) heq]
  · exact absurd hmem (list_not_mem_map_leaf inner values)

theorem collapse_of_mem {children inner : List (Nested α)} (h : list inner ∈ children) :
    (list children).collapse = list (children.map collapse) := by
  rcases collapse_list children with ⟨values, rfl, -⟩ | ⟨-, hcollapse⟩
  · exact absurd h (list_not_mem_map_leaf inner values)
  · exact hcollapse

-- The groups, one after the other, hold the leaves in order.
theorem flatten_leaves_collapse (nested : Nested α) :
    nested.collapse.leaves.flatten = nested.leaves := by
  induction nested with
  | leaf value => rfl
  | list children ih =>
      rcases collapse_list children with ⟨values, rfl, hcollapse⟩ | ⟨-, hcollapse⟩
      · rw [hcollapse, leaves_leaf, List.flatten_singleton]
        exact (leaves_ofList values).symm
      · rw [hcollapse, leaves_list, leaves_list, List.flatMap_map, List.flatten_eq_flatMap,
          List.flatMap_assoc]
        refine List.flatMap_congr fun child hchild => ?_
        rw [← List.flatten_eq_flatMap, ih child hchild]

theorem depth_collapse (nested : Nested α) : nested.collapse.depth = nested.depth - 1 := by
  induction nested with
  | leaf value => rfl
  | list children ih =>
      rcases collapse_list children with ⟨values, rfl, hcollapse⟩ | ⟨⟨inner, hmem⟩, hcollapse⟩
      · have hflat : (list (values.map leaf)).depth ≤ 0 + 1 := by
          apply depth_list_le_iff.mpr
          intro child hchild
          obtain ⟨value, -, rfl⟩ := List.mem_map.mp hchild
          exact Nat.le_refl _
        rw [hcollapse, depth]
        omega
      · have hinner := depth_lt_of_mem hmem
        have hone := one_le_depth_list inner
        -- a child is folded to one level less, unless it is a leaf, and the list beside it
        -- is deep enough for that to make no difference
        have hle : (list (children.map collapse)).depth ≤ (list children).depth - 2 + 1 := by
          apply depth_list_le_iff.mpr
          intro folded hfolded
          obtain ⟨child, hchild, rfl⟩ := List.mem_map.mp hfolded
          have hlt := depth_lt_of_mem hchild
          rw [ih child hchild]
          omega
        have hge : (list children).depth ≤ (list (children.map collapse)).depth + 1 := by
          apply depth_list_le_iff.mpr
          intro child hchild
          have hlt := depth_lt_of_mem (List.mem_map_of_mem (f := collapse) hchild)
          rw [ih child hchild] at hlt
          omega
        rw [hcollapse]
        omega

end Collapse

section Places

-- What stands at the end of a path of child numbers.
def at? : Nested α → List Nat → Option (Nested α)
  | nested, [] => some nested
  | leaf _, _ :: _ => none
  | list children, i :: path => children[i]?.bind fun child => child.at? path

@[simp]
theorem at?_nil (nested : Nested α) : nested.at? [] = some nested := by
  rw [at?]

@[simp]
theorem at?_list (children : List (Nested α)) (i : Nat) (path : List Nat) :
    (list children).at? (i :: path) = children[i]?.bind fun child => child.at? path := rfl

theorem eq_of_at?_nil {nested found : Nested α} (h : nested.at? [] = some found) :
    nested = found :=
  Option.some.inj ((at?_nil nested).symm.trans h)

-- What stands further down stands in a child of a list.
theorem exists_of_at?_cons {nested found : Nested α} {i : Nat} {path : List Nat}
    (h : nested.at? (i :: path) = some found) : ∃ children child,
      nested = list children ∧ children[i]? = some child ∧ child.at? path = some found := by
  cases nested with
  | leaf value => cases h
  | list children =>
      obtain ⟨child, hchild, hat⟩ := Option.bind_eq_some_iff.mp h
      exact ⟨children, child, rfl, hchild, hat⟩

theorem exists_at?_of_mem {children : List (Nested α)} {child : Nested α} (h : child ∈ children) :
    ∃ i, ∀ path, (list children).at? (i :: path) = child.at? path := by
  obtain ⟨i, hi⟩ := List.getElem?_of_mem h
  exact ⟨i, fun path => by rw [at?_list, hi, Option.bind_some]⟩

theorem at?_leaf_ne_list (value : α) (path : List Nat) (children : List (Nested α)) :
    (leaf value).at? path ≠ some (list children) := by
  intro h
  cases path with
  | nil => cases eq_of_at?_nil h
  | cons i path => cases h

-- What holds everywhere in a list holds of the list, and everywhere in its children.
theorem forall_at?_list_iff {P : Nested α → Prop} {children : List (Nested α)} :
    (∀ path found, (list children).at? path = some found → P found) ↔
      P (list children) ∧
        ∀ child ∈ children, ∀ path found, child.at? path = some found → P found := by
  constructor
  · intro h
    refine ⟨h [] _ (at?_nil _), fun child hchild path found hat => ?_⟩
    obtain ⟨i, hi⟩ := exists_at?_of_mem hchild
    exact h (i :: path) found ((hi path).trans hat)
  · rintro ⟨hself, hchildren⟩ path found hat
    cases path with
    | nil => exact eq_of_at?_nil hat ▸ hself
    | cons i path =>
        obtain ⟨_, child, heq, hchild, hat⟩ := exists_of_at?_cons hat
        obtain rfl := list.inj heq
        exact hchildren child (List.mem_of_getElem? hchild) path found hat

theorem forall_at?_leaf_iff {P : Nested α → Prop} {value : α} :
    (∀ path found, (leaf value).at? path = some found → P found) ↔ P (leaf value) := by
  refine ⟨fun h => h [] _ (at?_nil _), fun h path found hat => ?_⟩
  cases path with
  | nil => exact eq_of_at?_nil hat ▸ h
  | cons i path => cases hat

theorem at?_append (nested : Nested α) (path more : List Nat) :
    nested.at? (path ++ more) = (nested.at? path).bind fun found => found.at? more := by
  induction path generalizing nested with
  | nil => simp
  | cons i path ih =>
      cases nested with
      | leaf value => rfl
      | list children =>
          rw [List.cons_append, at?_list, at?_list, Option.bind_assoc]
          simp only [ih]

theorem at?_map (f : α → β) (nested : Nested α) (path : List Nat) :
    (nested.map f).at? path = (nested.at? path).map (map f) := by
  induction path generalizing nested with
  | nil => simp
  | cons i path ih =>
      cases nested with
      | leaf value => rfl
      | list children =>
          rw [map_list, at?_list, at?_list, List.getElem?_map]
          cases children[i]? with
          | none => rfl
          | some child => exact ih child

theorem mem_leaves_of_at? {nested : Nested α} {path : List Nat} {value : α}
    (h : nested.at? path = some (leaf value)) : value ∈ nested.leaves := by
  induction path generalizing nested with
  | nil => simp [eq_of_at?_nil h]
  | cons i path ih =>
      obtain ⟨children, child, rfl, hchild, hat⟩ := exists_of_at?_cons h
      rw [leaves_list]
      exact List.mem_flatMap.mpr ⟨child, List.mem_of_getElem? hchild, ih hat⟩

theorem exists_at?_of_mem_leaves {nested : Nested α} {value : α} (h : value ∈ nested.leaves) :
    ∃ path, nested.at? path = some (leaf value) := by
  induction nested with
  | leaf other =>
      obtain rfl := List.mem_singleton.mp h
      exact ⟨[], at?_nil _⟩
  | list children ih =>
      rw [leaves_list] at h
      obtain ⟨child, hmem, hvalue⟩ := List.mem_flatMap.mp h
      obtain ⟨path, hpath⟩ := ih child hmem hvalue
      obtain ⟨i, hi⟩ := exists_at?_of_mem hmem
      exact ⟨i :: path, (hi path).trans hpath⟩

end Places

end Dataflow.Nested
