import Dataflow.Proofs.Ragged.Nesting

namespace Dataflow

namespace Nested

variable {α : Type} {nested : Nested α} {children : List (Nested α)} {run values : List α}
  {a b : α}

section Stretches

mutual
-- The leaves cut wherever a list begins or ends, also where that leaves nothing.
def stretches {α : Type} : Nested α → List (List α)
  | leaf value => [[value]]
  | list children => stretchesAfter [] children

-- The same for the remaining children of a list, `run` being those before them.
def stretchesAfter {α : Type} (run : List α) : List (Nested α) → List (List α)
  | [] => [run]
  | child :: rest =>
      match child with
      | leaf value => stretchesAfter (run ++ [value]) rest
      | list _ => run :: (stretches child ++ stretchesAfter [] rest)
end

theorem closeRun_eq (done : List (List α)) (run : List α) :
    closeRun done run = ([run.reverse].filter fun run => !run.isEmpty) ++ done := by
  cases run with
  | nil => rfl
  | cons value run => simp [closeRun]

mutual
theorem pushRuns_eq {α : Type} (done : List (List α)) (nested : Nested α) :
    nested.pushRuns done = (nested.stretches.filter fun run => !run.isEmpty).reverse ++ done := by
  match nested with
  | leaf value => rfl
  | list children => rw [pushRuns, pushRunsAll_eq done [] children, stretches, List.reverse_nil]

theorem pushRunsAll_eq {α : Type} (done : List (List α)) (run : List α)
    (children : List (Nested α)) : pushRunsAll done run children =
      ((stretchesAfter run.reverse children).filter fun run => !run.isEmpty).reverse ++ done := by
  match children with
  | [] =>
      rw [pushRunsAll, closeRun_eq, stretchesAfter]
      cases run.reverse <;> rfl
  | leaf value :: rest =>
      rw [pushRunsAll, pushRunsAll_eq done (value :: run) rest, stretchesAfter, List.reverse_cons]
  | list inner :: rest =>
      rw [pushRunsAll, pushRunsAll_eq _ [] rest, pushRuns_eq _ (list inner), closeRun_eq,
        stretchesAfter]
      cases run.reverse <;> simp
end

theorem runs_eq (nested : Nested α) :
    nested.runs = nested.stretches.filter fun run => !run.isEmpty := by
  rw [runs, pushRuns_eq, List.append_nil, List.reverse_reverse]

theorem flatten_stretchesAfter {children : List (Nested α)}
    (h : ∀ child ∈ children, child.stretches.flatten = child.leaves) (run : List α) :
    (stretchesAfter run children).flatten = run ++ children.flatMap leaves := by
  induction children generalizing run with
  | nil => simp [stretchesAfter]
  | cons child rest ih =>
      obtain ⟨hchild, hrest⟩ := List.forall_mem_cons.mp h
      cases child with
      | leaf value =>
          rw [stretchesAfter, ih hrest, List.flatMap_cons, leaves_leaf, List.append_assoc]
      | list inner =>
          rw [stretchesAfter, List.flatten_cons, List.flatten_append, hchild, ih hrest,
            List.flatMap_cons, List.nil_append]

theorem flatten_stretches (nested : Nested α) : nested.stretches.flatten = nested.leaves := by
  induction nested with
  | leaf value => rfl
  | list children ih => rw [stretches, flatten_stretchesAfter ih, leaves_list, List.nil_append]

-- The runs, one after the other, hold the leaves in order.
theorem flatten_runs (nested : Nested α) : nested.runs.flatten = nested.leaves := by
  rw [runs_eq, List.flatten_filter_not_isEmpty, flatten_stretches]

end Stretches

section Neighbours

-- Leaves that are children of one list.
def Siblings (nested : Nested α) (a b : α) : Prop :=
  ∃ path children, nested.at? path = some (list children) ∧ leaf a ∈ children ∧ leaf b ∈ children

-- Leaves that stand in a list one after the other, with nothing else among them.
def Stretch (nested : Nested α) (run : List α) : Prop :=
  ∃ path before after, nested.at? path = some (list (before ++ run.map leaf ++ after))

-- Children of one list with no list between them.
def Neighbours (nested : Nested α) (a b : α) : Prop :=
  ∃ run, nested.Stretch run ∧ a ∈ run ∧ b ∈ run

theorem Neighbours.siblings (h : nested.Neighbours a b) : nested.Siblings a b := by
  obtain ⟨run, ⟨path, before, after, hat⟩, ha, hb⟩ := h
  refine ⟨path, _, hat, ?_, ?_⟩
  · exact List.mem_append_left _ (List.mem_append_right _ (List.mem_map_of_mem ha))
  · exact List.mem_append_left _ (List.mem_append_right _ (List.mem_map_of_mem hb))

theorem Stretch.of_mem {child : Nested α} (h : child.Stretch run) (hchild : child ∈ children) :
    (list children).Stretch run := by
  obtain ⟨path, before, after, hat⟩ := h
  obtain ⟨i, hi⟩ := exists_at?_of_mem hchild
  exact ⟨i :: path, before, after, (hi path).trans hat⟩

-- A stretch of a list is one of its own or of a list in it.
theorem mem_stretchesAfter (h : values ∈ stretchesAfter run children) :
    (∃ before after, run.map leaf ++ children = before ++ values.map leaf ++ after) ∨
      ∃ inner, list inner ∈ children ∧ values ∈ (list inner).stretches := by
  induction children generalizing run with
  | nil =>
      obtain rfl := List.mem_singleton.mp h
      exact .inl ⟨[], [], by simp⟩
  | cons child rest ih =>
      cases child with
      | leaf value =>
          rcases ih h with ⟨before, after, heq⟩ | ⟨inner, hinner, hvalues⟩
          · refine .inl ⟨before, after, ?_⟩
            rw [← heq, List.map_append, List.append_assoc]
            rfl
          · exact .inr ⟨inner, List.mem_cons_of_mem _ hinner, hvalues⟩
      | list inner =>
          rcases List.mem_cons.mp h with rfl | h
          · exact .inl ⟨[], list inner :: rest, rfl⟩
          rcases List.mem_append.mp h with h | h
          · exact .inr ⟨inner, List.mem_cons_self, h⟩
          rcases ih h with ⟨before, after, heq⟩ | ⟨inner', hinner, hvalues⟩
          · refine .inl ⟨run.map leaf ++ list inner :: before, after, ?_⟩
            rw [List.map_nil, List.nil_append] at heq
            simp [heq]
          · exact .inr ⟨inner', List.mem_cons_of_mem _ hinner, hvalues⟩

theorem stretch_of_mem_stretches (hlist : nested.isLeaf = false) (h : run ∈ nested.stretches) :
    nested.Stretch run := by
  induction nested with
  | leaf value => cases hlist
  | list children ih =>
      rcases mem_stretchesAfter h with ⟨before, after, heq⟩ | ⟨inner, hinner, hrun⟩
      · rw [List.map_nil, List.nil_append] at heq
        exact ⟨[], before, after, by rw [at?_nil, heq]⟩
      · exact (ih _ hinner rfl hrun).of_mem hinner

-- What leads up to a place in a list decides only about the stretch that it stands in.
theorem exists_stretchesAfter_subset (run : List α) (before rest : List (Nested α)) :
    ∃ run', stretchesAfter run' rest ⊆ stretchesAfter run (before ++ rest) := by
  induction before generalizing run with
  | nil => exact ⟨run, List.Subset.refl _⟩
  | cons child before ih =>
      cases child with
      | leaf value => exact ih (run ++ [value])
      | list inner =>
          obtain ⟨run', hsub⟩ := ih []
          refine ⟨run', List.Subset.trans hsub ?_⟩
          exact List.subset_cons_of_subset _ (List.subset_append_right _ _)

theorem stretchesAfter_map_leaf (run values : List α) (rest : List (Nested α)) :
    stretchesAfter run (values.map leaf ++ rest) = stretchesAfter (run ++ values) rest := by
  induction values generalizing run with
  | nil => simp
  | cons value values ih =>
      rw [List.map_cons, List.cons_append, stretchesAfter, ih, List.append_assoc]
      rfl

theorem exists_prefix_mem_stretchesAfter (run : List α) (rest : List (Nested α)) :
    ∃ whole ∈ stretchesAfter run rest, run <+: whole := by
  induction rest generalizing run with
  | nil => exact ⟨run, List.mem_singleton_self run, List.prefix_refl run⟩
  | cons child rest ih =>
      cases child with
      | leaf value =>
          obtain ⟨whole, hwhole, hprefix⟩ := ih (run ++ [value])
          exact ⟨whole, hwhole, (List.prefix_append _ _).trans hprefix⟩
      | list inner => exact ⟨run, List.mem_cons_self, List.prefix_refl run⟩

theorem stretches_subset_of_mem {inner : List (Nested α)} (hinner : list inner ∈ children) :
    (list inner).stretches ⊆ (list children).stretches := by
  obtain ⟨before, after, rfl⟩ := List.append_of_mem hinner
  obtain ⟨run, hsub⟩ := exists_stretchesAfter_subset [] before (list inner :: after)
  refine List.Subset.trans ?_ hsub
  exact List.subset_cons_of_subset _ (List.subset_append_left _ _)

theorem Stretch.exists_mem_stretches (h : nested.Stretch run) :
    ∃ whole ∈ nested.stretches, run ⊆ whole := by
  obtain ⟨path, before, after, hat⟩ := h
  induction path generalizing nested with
  | nil =>
      obtain ⟨run', hsub⟩ := exists_stretchesAfter_subset [] before (run.map leaf ++ after)
      rw [stretchesAfter_map_leaf] at hsub
      obtain ⟨whole, hwhole, hprefix⟩ := exists_prefix_mem_stretchesAfter (run' ++ run) after
      refine ⟨whole, ?_, ?_⟩
      · rw [eq_of_at?_nil hat, stretches, List.append_assoc]
        exact hsub hwhole
      · exact List.Subset.trans (List.subset_append_right _ _) hprefix.subset
  | cons i path ih =>
      obtain ⟨children, child, rfl, hchild, hat⟩ := exists_of_at?_cons hat
      cases child with
      | leaf value => exact absurd hat (at?_leaf_ne_list value path _)
      | list inner =>
          obtain ⟨whole, hwhole, hsub⟩ := ih hat
          exact ⟨whole, stretches_subset_of_mem (List.mem_of_getElem? hchild) hwhole, hsub⟩

-- In a list two leaves are in one run just if they are neighbours.
theorem exists_mem_runs_iff (hlist : nested.isLeaf = false) :
    (∃ run ∈ nested.runs, a ∈ run ∧ b ∈ run) ↔ nested.Neighbours a b := by
  rw [runs_eq]
  constructor
  · intro h
    obtain ⟨run, hrun, ha, hb⟩ := h
    exact ⟨run, stretch_of_mem_stretches hlist (List.mem_filter.mp hrun).1, ha, hb⟩
  · intro h
    obtain ⟨run, hstretch, ha, hb⟩ := h
    obtain ⟨whole, hwhole, hsub⟩ := hstretch.exists_mem_stretches
    refine ⟨whole, List.mem_filter.mpr ⟨hwhole, ?_⟩, hsub ha, hsub hb⟩
    rw [Bool.not_eq_true', List.isEmpty_eq_false_iff]
    exact List.ne_nil_of_mem (hsub ha)

end Neighbours

section InRuns

-- The runs as the groups of one list.
def inRuns (nested : Nested α) : Nested α :=
  list (nested.runs.map ofList)

theorem leaves_inRuns (nested : Nested α) : nested.inRuns.leaves = nested.leaves := by
  rw [inRuns, leaves_list, List.flatMap_map, ← flatten_runs, List.flatten_eq_flatMap]
  exact List.flatMap_congr fun run _ => leaves_ofList run

theorem depth_inRuns (nested : Nested α) : nested.inRuns.depth ≤ 2 := by
  apply depth_list_le_iff.mpr
  intro group hgroup
  obtain ⟨run, -, rfl⟩ := List.mem_map.mp hgroup
  apply depth_list_le_iff.mpr
  intro child hchild
  obtain ⟨value, -, rfl⟩ := List.mem_map.mp hchild
  exact Nat.le_refl 0

theorem leaf_mem_map_leaf_iff : leaf a ∈ run.map leaf ↔ a ∈ run :=
  List.mem_map_of_injective fun _ _ => leaf.inj

-- The only list in a group of leaves is the group itself.
theorem eq_of_at?_ofList {path : List Nat} (h : (ofList run).at? path = some (list children)) :
    children = run.map leaf := by
  cases path with
  | nil => exact (list.inj (eq_of_at?_nil h)).symm
  | cons i path =>
      obtain ⟨child, hchild, hat⟩ := Option.bind_eq_some_iff.mp h
      obtain ⟨value, -, rfl⟩ := List.mem_map.mp (List.mem_of_getElem? hchild)
      exact absurd hat (at?_leaf_ne_list value path children)

-- Siblings in such a list are the members of a run, as it has no leaves of its own.
theorem siblings_inRuns_iff :
    nested.inRuns.Siblings a b ↔ ∃ run ∈ nested.runs, a ∈ run ∧ b ∈ run := by
  constructor
  · intro h
    obtain ⟨path, children, hat, ha, hb⟩ := h
    cases path with
    | nil =>
        obtain rfl := list.inj (eq_of_at?_nil hat)
        obtain ⟨run, -, hrun⟩ := List.mem_map.mp ha
        cases hrun
    | cons i path =>
        obtain ⟨group, hgroup, hat⟩ := Option.bind_eq_some_iff.mp hat
        obtain ⟨run, hrun, rfl⟩ := List.mem_map.mp (List.mem_of_getElem? hgroup)
        obtain rfl := eq_of_at?_ofList hat
        exact ⟨run, hrun, leaf_mem_map_leaf_iff.mp ha, leaf_mem_map_leaf_iff.mp hb⟩
  · intro h
    obtain ⟨run, hrun, ha, hb⟩ := h
    obtain ⟨i, hi⟩ := exists_at?_of_mem (List.mem_map_of_mem (f := ofList) hrun)
    refine ⟨[i], run.map leaf, ?_, leaf_mem_map_leaf_iff.mpr ha, leaf_mem_map_leaf_iff.mpr hb⟩
    exact (hi []).trans (at?_nil _)

end InRuns

end Nested

namespace Ragged

variable {ragged : Ragged}

theorem keepLast_of_depth_le (h : ragged.depth ≤ 2) : ragged.keepLast = ragged.toNested := by
  rw [keepLast, if_pos h]

-- Below two levels the values are nested again in the runs of their positions.
theorem keepLast_of_lt_depth (h : 2 < ragged.depth) :
    ragged.keepLast = toNested ⟨ragged.flat, ragged.shape.inRuns⟩ := by
  rw [keepLast, if_neg (Nat.not_le.mpr h), toNested, Nested.inRuns, Nested.map_list, List.map_map]
  refine congrArg Nested.list (List.map_congr_left fun run _ => ?_)
  exact (Nested.map_ofList _ run).symm

theorem Canonical.inRuns (hc : ragged.Canonical) :
    Canonical ⟨ragged.flat, ragged.shape.inRuns⟩ :=
  (Nested.leaves_inRuns ragged.shape).trans hc

theorem depth_toNested (ragged : Ragged) : ragged.toNested.depth = ragged.depth :=
  Nested.depth_eq_of_blank (blank_toNested ragged)

theorem depth_keepLast (ragged : Ragged) : ragged.keepLast.depth ≤ 2 := by
  rcases Nat.lt_or_ge 2 ragged.depth with h | h
  · rw [keepLast_of_lt_depth h, depth_toNested]
    exact Nested.depth_inRuns ragged.shape
  · rwa [keepLast_of_depth_le h, depth_toNested]

theorem Canonical.leaves_keepLast (hc : ragged.Canonical) :
    ragged.keepLast.leaves = ragged.flat := by
  rcases Nat.lt_or_ge 2 ragged.depth with h | h
  · rw [keepLast_of_lt_depth h, hc.inRuns.leaves_toNested]
  · rw [keepLast_of_depth_le h, hc.leaves_toNested]

-- What is at most two levels deep stays as it is.
theorem keepLast_ofNested {nested : Nested Value} (h : nested.depth ≤ 2) :
    (ofNested nested).keepLast = nested := by
  have hdepth : (ofNested nested).depth = nested.depth :=
    Nested.depth_eq_of_blank (Nested.blank_numbered nested)
  rw [keepLast_of_depth_le (Nat.le_trans (Nat.le_of_eq hdepth) h), toNested_ofNested]

-- What is kept of the nesting is at most two levels, and all of it where there are no more;
-- what is kept of the row is all of it, in order. Done a second time, nothing changes.
theorem keepLast_loses_nothing (hc : ragged.Canonical) :
    ragged.keepLast.depth ≤ 2 ∧ ragged.keepLast.DepthFirst ragged.flat ∧
    (ragged.depth ≤ 2 → ragged.keepLast = ragged.toNested) ∧
    (ofNested ragged.keepLast).keepLast = ragged.keepLast := by
  refine ⟨depth_keepLast ragged, ?_, keepLast_of_depth_le, ?_⟩
  · exact Nested.depthFirst_iff.mpr hc.leaves_keepLast
  · exact keepLast_ofNested (depth_keepLast ragged)

-- Two leaves and a third one behind a list that is three levels deep altogether.
private def parted : Ragged :=
  ⟨[.text "a", .text "b", .null, .text "c"],
    .list [.leaf 0, .leaf 1, .list [.list [.leaf 2], .list []], .leaf 3]⟩

theorem parted_loses_nothing : parted.Canonical ∧
    parted.keepLast.depth ≤ 2 ∧
    parted.keepLast.DepthFirst [.text "a", .text "b", .null, .text "c"] ∧
    (ofNested parted.keepLast).keepLast = parted.keepLast := by
  have hc : parted.Canonical := by decide
  obtain ⟨hdepth, hleaves, -, hagain⟩ := keepLast_loses_nothing hc
  exact ⟨hc, hdepth, hleaves, hagain⟩

theorem Canonical.numbered_keepLast (hc : ragged.Canonical) (h : 2 < ragged.depth) :
    ragged.keepLast.numbered = ragged.shape.inRuns := by
  rw [keepLast_of_lt_depth h]
  exact Nested.numbered_eq (blank_toNested _) hc.inRuns

theorem isLeaf_of_lt_depth (h : 2 < ragged.depth) : ragged.shape.isLeaf = false := by
  cases hshape : ragged.shape with
  | leaf i =>
      rw [Ragged.depth, hshape] at h
      cases h
  | list children => rfl

-- Leaves of a value more than two levels deep, by their numbers from left to right: those
-- that are together in the end were children of one list, and just those are together that
-- had no list between them either.
theorem neighbours_stay_together (hc : ragged.Canonical) (hdepth : 2 < ragged.depth) (k l : Nat) :
    (ragged.keepLast.numbered.Siblings k l → ragged.shape.Siblings k l) ∧
    (ragged.keepLast.numbered.Siblings k l ↔ ragged.shape.Neighbours k l) := by
  have htogether : ragged.keepLast.numbered.Siblings k l ↔ ragged.shape.Neighbours k l := by
    rw [hc.numbered_keepLast hdepth, Nested.siblings_inRuns_iff,
      Nested.exists_mem_runs_iff (isLeaf_of_lt_depth hdepth)]
  exact ⟨fun h => (htogether.mp h).siblings, htogether⟩

theorem parted_first_two_together : parted.Canonical ∧ 2 < parted.depth ∧
    parted.keepLast.numbered.Siblings 0 1 := by
  have hc : parted.Canonical := by decide
  have hdepth : 2 < parted.depth := by decide
  have hfirst : parted.shape.Neighbours 0 1 :=
    ⟨[0, 1], ⟨[], [], [.list [.list [.leaf 2], .list []], .leaf 3], rfl⟩, by simp, by simp⟩
  exact ⟨hc, hdepth, (neighbours_stay_together hc hdepth 0 1).2.mpr hfirst⟩

-- The last leaf is a child of the list that the first one is in, but no longer with it.
theorem parted_last_apart : parted.Canonical ∧ 2 < parted.depth ∧
    parted.shape.Siblings 0 3 ∧ ¬parted.keepLast.numbered.Siblings 0 3 := by
  have hc : parted.Canonical := by decide
  have hdepth : 2 < parted.depth := by decide
  refine ⟨hc, hdepth, ⟨[], _, Nested.at?_nil _, by simp, by simp⟩, ?_⟩
  rw [hc.numbered_keepLast hdepth, Nested.siblings_inRuns_iff]
  decide

end Ragged

end Dataflow
