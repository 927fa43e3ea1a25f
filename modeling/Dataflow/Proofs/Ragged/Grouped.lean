import Dataflow.Catalogue.Sequence
import Dataflow.Proofs.Ragged.Nesting

namespace Dataflow

-- A group at the bottom of nested data, by the path to it: all the members of a list that
-- has no lists among them, or a leaf that has a list beside it.
inductive Nested.Innermost {α : Type} (nested : Nested α) : List Nat → List α → Prop where
  | members {path : List Nat} {values : List α} :
      nested.at? path = some (.list (values.map .leaf)) → Innermost nested path values
  | single {path : List Nat} {children inner : List (Nested α)} {i : Nat} {value : α} :
      nested.at? path = some (.list children) → children[i]? = some (.leaf value) →
        .list inner ∈ children → Innermost nested (path ++ [i]) [value]

namespace Nested

variable {α : Type} {nested child : Nested α} {children : List (Nested α)} {path : List Nat}
  {group : List α}

theorem Innermost.cons {i : Nat} (hchild : children[i]? = some child)
    (h : child.Innermost path group) : (list children).Innermost (i :: path) group := by
  have hat : ∀ path, (list children).at? (i :: path) = child.at? path := by
    intro path
    rw [at?_list, hchild, Option.bind_some]
  cases h with
  | members h =>
      apply Innermost.members
      rw [hat, h]
  | @single outer _ _ k _ h hleaf hmem =>
      have hlist : (list children).at? (i :: outer) = some (list _) := (hat outer).trans h
      exact .single hlist hleaf hmem

-- Whatever has become a leaf was such a group.
theorem innermost_of_at?_collapse
    (h : (list children).collapse.at? path = some (leaf group)) :
    (list children).Innermost path group := by
  induction path generalizing children with
  | nil =>
      have hleaf := eq_of_at?_nil h
      rcases collapse_list children with ⟨values, rfl, hcollapse⟩ | ⟨-, hcollapse⟩
      · obtain rfl := leaf.inj (hcollapse.symm.trans hleaf)
        exact .members (at?_nil _)
      · cases hcollapse.symm.trans hleaf
  | cons i path ih =>
      rcases collapse_list children with ⟨values, rfl, hcollapse⟩ | ⟨⟨inner, hmem⟩, hcollapse⟩
      · rw [hcollapse] at h
        cases h
      · rw [hcollapse, at?_list, List.getElem?_map, Option.bind_map] at h
        obtain ⟨child, hchild, hat⟩ := Option.bind_eq_some_iff.mp h
        cases child with
        | list inner => exact .cons hchild (ih hat)
        | leaf value =>
            cases path with
            | cons k path => cases hat
            | nil =>
                obtain rfl : [value] = group := leaf.inj (Option.some.inj hat)
                exact .single (at?_nil _) hchild hmem

-- A list keeps its place, as every list around it does.
theorem at?_collapse_of_list (h : nested.at? path = some (list children)) :
    nested.collapse.at? path = some (list children).collapse := by
  induction path generalizing nested with
  | nil => rw [eq_of_at?_nil h, at?_nil]
  | cons i path ih =>
      obtain ⟨others, child, rfl, hchild, hat⟩ := exists_of_at?_cons h
      cases child with
      | leaf value => exact absurd hat (at?_leaf_ne_list value path children)
      | list inner =>
          rw [collapse_of_mem (List.mem_of_getElem? hchild), at?_list, List.getElem?_map, hchild]
          exact ih hat

theorem Innermost.at?_collapse (h : nested.Innermost path group) :
    nested.collapse.at? path = some (leaf group) := by
  cases h with
  | members h => rw [at?_collapse_of_list h, collapse_map_leaf]
  | single h hleaf hmem =>
      rw [at?_append, at?_collapse_of_list h, collapse_of_mem hmem, Option.bind_some, at?_list,
        List.getElem?_map, hleaf]
      rfl

-- The k-th leaf stands where the numbered nesting has k.
theorem at?_of_at?_numbered {k : Nat} (h : nested.numbered.at? path = some (leaf k)) :
    ∃ value, nested.leaves[k]? = some value ∧ nested.at? path = some (leaf value) := by
  have hk := mem_leaves_of_at? h
  rw [leaves_numbered, List.mem_range] at hk
  have hat := at?_map (fun i => nested.leaves[i]?.getD nested.leaves[k]) nested.numbered path
  rw [map_numbered, h] at hat
  refine ⟨nested.leaves[k], List.getElem?_eq_getElem hk, hat.trans ?_⟩
  simp [map, bind, hk]

theorem exists_at?_numbered {k : Nat} (h : k < nested.leaves.length) :
    ∃ path, nested.numbered.at? path = some (leaf k) := by
  apply exists_at?_of_mem_leaves
  rw [leaves_numbered]
  exact List.mem_range.mpr h

theorem exists_at?_numbered_of_at? {value : α} (h : nested.at? path = some (leaf value)) :
    ∃ k, nested.numbered.at? path = some (leaf k) ∧ nested.leaves[k]? = some value := by
  have hat := at?_map (fun k => nested.leaves[k]?.getD value) nested.numbered path
  rw [map_numbered, h] at hat
  obtain ⟨found, hfound, hleaf⟩ := Option.map_eq_some_iff.mp hat.symm
  cases found with
  | list children =>
      rw [map_list] at hleaf
      cases hleaf
  | leaf k =>
      obtain ⟨other, hother, hother'⟩ := at?_of_at?_numbered hfound
      obtain rfl := leaf.inj (Option.some.inj (h.symm.trans hother'))
      exact ⟨k, hfound, hother⟩

end Nested

namespace Ragged

-- How a value comes apart into its innermost groups: one level of the nesting goes, the
-- leaves that are left number the groups, and each of these has its number where it stood.
structure Split (ragged : Ragged) : Prop where
  depth : ragged.shapeKeepLast.depth + 1 = ragged.depth
  numbered : ragged.shapeKeepLast.DepthFirst (List.range ragged.groups.length)
  whole : ragged.shape.DepthFirst ragged.groups.flatten
  innermost : ∀ k group, ragged.groups[k]? = some group → ∃ path,
    ragged.shapeKeepLast.at? path = some (.leaf k) ∧ ragged.shape.Innermost path group
  every : ∀ path group, ragged.shape.Innermost path group → ∃ k,
    ragged.shapeKeepLast.at? path = some (.leaf k) ∧ ragged.groups[k]? = some group

-- A value that has, in the place of each innermost group, the number of its members. These
-- add up to the size of the row, as do the lengths of the groups that they stand for, and
-- none of them is cut off where the row is no longer than a row can be.
structure Lengths (value result : Ragged) : Prop where
  shape : result.shape = value.shapeKeepLast
  flat : result.flat = value.groups.map fun group => .int (Int64.ofNat group.length)
  sum : ∃ numbers : List Int64, result.flat = numbers.map .int ∧
    numbers.foldr (· + ·) 0 = Int64.ofNat value.size
  total : (value.groups.map List.length).foldr (· + ·) 0 = value.size
  exact : value.size < Int64.size / 2 → ∀ group ∈ value.groups,
    (Int64.ofNat group.length).toInt = Int.ofNat group.length

variable {ragged value : Ragged}

theorem leaves_shapeKeepLast (ragged : Ragged) :
    ragged.shapeKeepLast.leaves = List.range ragged.groups.length :=
  Nested.leaves_numbered _

theorem split_of_depth (h : 1 ≤ ragged.depth) : Split ragged := by
  obtain ⟨children, hshape⟩ : ∃ children, ragged.shape = .list children := by
    cases hshape : ragged.shape with
    | leaf i =>
        rw [Ragged.depth, hshape] at h
        cases h
    | list children => exact ⟨children, rfl⟩
  refine ⟨?_, ?_, ?_, ?_, ?_⟩
  · have hblank : ragged.shapeKeepLast.blank = ragged.shape.collapse.blank :=
      Nested.blank_numbered _
    rw [Nested.depth_eq_of_blank hblank, Nested.depth_collapse]
    unfold Ragged.depth at h ⊢
    omega
  · exact Nested.depthFirst_iff.mpr (leaves_shapeKeepLast ragged)
  · exact Nested.depthFirst_iff.mpr (Nested.flatten_leaves_collapse _).symm
  · intro k group hgroup
    obtain ⟨hk, -⟩ := List.getElem?_eq_some_iff.mp hgroup
    obtain ⟨path, hpath⟩ := Nested.exists_at?_numbered hk
    obtain ⟨found, hfound, hat⟩ := Nested.at?_of_at?_numbered hpath
    obtain rfl := Option.some.inj (hgroup.symm.trans hfound)
    rw [hshape] at hat ⊢
    exact ⟨path, hpath, Nested.innermost_of_at?_collapse hat⟩
  · intro path group hgroup
    exact Nested.exists_at?_numbered_of_at? hgroup.at?_collapse

theorem foldr_length_eq (groups : List (List Nat)) :
    (groups.map List.length).foldr (· + ·) 0 = groups.flatten.length := by
  induction groups with
  | nil => rfl
  | cons group rest ih => rw [List.map_cons, List.foldr_cons, ih, List.flatten_cons, List.length_append]

theorem Canonical.flatten_groups (hc : ragged.Canonical) :
    ragged.groups.flatten = List.range ragged.flat.length := by
  rw [groups, Nested.flatten_leaves_collapse, hc]

theorem Canonical.lt_of_mem_groups (hc : ragged.Canonical) {group : List Nat}
    (hgroup : group ∈ ragged.groups) {i : Nat} (hi : i ∈ group) : i < ragged.flat.length := by
  have hmem : i ∈ ragged.groups.flatten := List.mem_flatten.mpr ⟨group, hgroup, hi⟩
  rwa [hc.flatten_groups, List.mem_range] at hmem

-- No group is longer than the row.
theorem Canonical.length_le_of_mem_groups (hc : ragged.Canonical) {group : List Nat}
    (hgroup : group ∈ ragged.groups) : group.length ≤ ragged.size := by
  have hlength := (List.sublist_flatten_of_mem hgroup).length_le
  rwa [hc.flatten_groups, List.length_range] at hlength

theorem foldr_ofNat (lengths : List Nat) :
    (lengths.map Int64.ofNat).foldr (· + ·) 0 = Int64.ofNat (lengths.foldr (· + ·) 0) := by
  induction lengths with
  | nil => rfl
  | cons length rest ih => rw [List.map_cons, List.foldr_cons, ih, List.foldr_cons, Int64.ofNat_add]

theorem Canonical.total_length (hc : ragged.Canonical) :
    (ragged.groups.map List.length).foldr (· + ·) 0 = ragged.size := by
  rw [foldr_length_eq, hc.flatten_groups, List.length_range]
  rfl

theorem Canonical.lengths (hc : value.Canonical) :
    Lengths value
      ⟨value.groups.map fun group => .int (Int64.ofNat group.length), value.shapeKeepLast⟩ := by
  refine ⟨rfl, rfl, ⟨(value.groups.map List.length).map Int64.ofNat, ?_, ?_⟩, hc.total_length,
    fun hsize group hgroup => ?_⟩
  · rw [List.map_map, List.map_map]
    rfl
  · rw [foldr_ofNat, hc.total_length]
  · have hlength := hc.length_le_of_mem_groups hgroup
    apply Int64.toInt_ofNat_of_lt
    unfold Int64.size at hsize
    omega

end Ragged

namespace Catalogue

variable {value : Ragged}

-- Work on every group fails only where the work on one of them does.
theorem perGroup_eq (value : Ragged) (f : List Value → Except EvalError Value) :
    perGroup value f =
      (value.groups.mapM fun group => f (group.filterMap fun i => value.flat[i]?)).map
        fun results => ⟨results, value.shapeKeepLast⟩ := by
  simp only [perGroup, List.getElem?_toArray]
  cases hresults : value.groups.mapM fun group => f (group.filterMap fun i => value.flat[i]?) with
  | error e => rfl
  | ok results =>
      have hleaves : value.shapeKeepLast.leaves = List.range results.length := by
        rw [Ragged.leaves_shapeKeepLast, (forall₂_of_mapM hresults).length_eq]
      exact Ragged.ofParts_of_leaves hleaves

theorem perGroup_length (hc : value.Canonical) :
    (perGroup value fun members => .ok (.int (Int64.ofNat members.length))) =
      .ok ⟨value.groups.map fun group => .int (Int64.ofNat group.length),
        value.shapeKeepLast⟩ := by
  have hmembers : ∀ group ∈ value.groups,
      (group.filterMap fun i => value.flat[i]?).length = group.length := by
    intro group hgroup
    exact Ragged.length_filterMap_getElem? fun i hi => hc.lt_of_mem_groups hgroup hi
  have hresults : (value.groups.mapM fun group =>
      Except.ok (.int (Int64.ofNat (group.filterMap fun i => value.flat[i]?).length))) =
        (.ok (value.groups.map fun group => .int (Int64.ofNat group.length)) :
          Except EvalError (List Value)) := by
    refine List.mapM_pure.trans (congrArg Except.ok (List.map_congr_left fun group hgroup => ?_))
    rw [hmembers group hgroup]
  rw [perGroup_eq, hresults]
  rfl

end Catalogue

namespace Ragged

-- A value that is nested at all comes apart into its innermost groups, and nothing is lost
-- or moved. So a length node has an answer for every canonical value: how many members each
-- of its groups has.
theorem groups_split_without_loss :
    (∀ ragged : Ragged, 1 ≤ ragged.depth → Split ragged) ∧
    ∀ given, ∃ template unit, Catalogue.length.build given = .ok template ∧
      template.units = [unit] ∧ unit.output = 0 ∧ unit.inputs = [0] ∧
      ∀ inputs value, inputs.get 0 = .ok value → value.Canonical →
        ∃ result, unit.run inputs = .ok result ∧ Lengths value result := by
  refine ⟨fun ragged => split_of_depth, fun given => ⟨_, _, rfl, rfl, rfl, rfl, ?_⟩⟩
  intro inputs value hinput hc
  refine ⟨_, ?_, hc.lengths⟩
  simp only [hinput]
  exact Catalogue.perGroup_length hc

-- A leaf beside a group of two and an empty one.
private def mixed : Ragged :=
  ⟨[.text "a", .null, .text "b"], .list [.leaf 0, .list [.leaf 1, .leaf 2], .list []]⟩

theorem mixed_split : 1 ≤ mixed.depth ∧ Split mixed ∧ mixed.Canonical ∧
    ∃ template unit result, Catalogue.length.build .empty = .ok template ∧
      template.units = [unit] ∧ unit.run ⟨[[mixed]], .empty⟩ = .ok result ∧
      Lengths mixed result ∧ result.flat = [.int 1, .int 2, .int 0] := by
  obtain ⟨hsplit, hlength⟩ := groups_split_without_loss
  have hdepth : 1 ≤ mixed.depth := by decide
  have hc : mixed.Canonical := by decide
  obtain ⟨template, unit, hbuild, hunits, -, -, hrun⟩ := hlength .empty
  obtain ⟨result, hresult, hlengths⟩ := hrun ⟨[[mixed]], .empty⟩ mixed rfl hc
  exact ⟨hdepth, hsplit mixed hdepth, hc, template, unit, result, hbuild, hunits, hresult,
    hlengths, hlengths.flat⟩

end Ragged

end Dataflow
