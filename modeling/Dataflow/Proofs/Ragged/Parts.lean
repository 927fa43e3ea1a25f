import Dataflow.Proofs.Ragged.Nesting
import Mathlib.Data.List.Perm.Subperm

namespace Dataflow.Ragged

-- The first leaf, from left to right, that is no position of a row of `size` values or
-- that came before.
def FirstBad (size : Nat) (leaves : List Nat) (leaf : Nat) : Prop :=
  ∃ before after, leaves = before ++ leaf :: after ∧ before.Nodup ∧
    (∀ other ∈ before, other < size) ∧ (leaf ∈ before ∨ size ≤ leaf)

variable {flat : List Value} {shape : Shape} {ragged : Ragged}

-- The marks tell the first bad leaf: those before it were all free, and different.
theorem firstBadLeaf_eq_some_iff {seen : Array Bool} {leaves : List Nat} {leaf : Nat} :
    firstBadLeaf seen leaves = some leaf ↔
      ∃ before after, leaves = before ++ leaf :: after ∧ before.Nodup ∧
        (∀ other ∈ before, seen[other]? = some false) ∧
        (leaf ∈ before ∨ ¬seen[leaf]? = some false) := by
  induction leaves generalizing seen with
  | nil => simp [firstBadLeaf]
  | cons head rest ih =>
      by_cases hhead : seen[head]? = some false
      · simp only [firstBadLeaf, hhead, if_true, ih, getElem?_mark]
        constructor
        · intro h
          obtain ⟨before, after, hsplit, hnodup, hfree, hbad⟩ := h
          have hnot : head ∉ before := fun hmem => (hfree head hmem).1 rfl
          refine ⟨head :: before, after, by rw [hsplit]; rfl, ?_, ?_, ?_⟩
          · exact List.nodup_cons.mpr ⟨hnot, hnodup⟩
          · exact List.forall_mem_cons.mpr ⟨hhead, fun other hmem => (hfree other hmem).2⟩
          · by_cases heq : leaf = head
            · exact .inl (heq ▸ List.mem_cons_self)
            · apply hbad.imp (List.mem_cons_of_mem _)
              intro hfull hnone
              exact hfull ⟨heq, hnone⟩
        · intro h
          obtain ⟨before, after, hsplit, hnodup, hfree, hbad⟩ := h
          cases before with
          | nil =>
              obtain ⟨rfl, -⟩ := List.cons.inj hsplit
              exact absurd hhead (hbad.resolve_left (by simp))
          | cons first before =>
              obtain ⟨rfl, hrest⟩ := List.cons.inj hsplit
              obtain ⟨hnot, hnodup⟩ := List.nodup_cons.mp hnodup
              refine ⟨before, after, hrest, hnodup, fun other hmem => ⟨?_, ?_⟩, ?_⟩
              · exact fun heq => hnot (heq ▸ hmem)
              · exact hfree other (List.mem_cons_of_mem _ hmem)
              · by_cases hmem : leaf ∈ before
                · exact .inl hmem
                · right
                  intro hleaf
                  rcases hbad with hfirst | hfull
                  · exact hleaf.1 ((List.mem_cons.mp hfirst).resolve_right hmem)
                  · exact hfull hleaf.2
      · simp only [firstBadLeaf, hhead, if_false, Option.some.injEq]
        constructor
        · intro h
          subst h
          exact ⟨[], rest, rfl, List.nodup_nil, by simp, .inr hhead⟩
        · intro h
          obtain ⟨before, after, hsplit, -, hfree, -⟩ := h
          cases before with
          | nil => exact (List.cons.inj hsplit).1
          | cons first before =>
              obtain ⟨rfl, -⟩ := List.cons.inj hsplit
              exact absurd (hfree head List.mem_cons_self) hhead

theorem firstBadLeaf_replicate_iff {size : Nat} {leaves : List Nat} {leaf : Nat} :
    firstBadLeaf (Array.replicate size false) leaves = some leaf ↔ FirstBad size leaves leaf := by
  simp only [firstBadLeaf_eq_some_iff, getElem?_replicate_false, Nat.not_lt, FirstBad]

-- As many positions as there are, none of them twice: all of them.
theorem perm_range_iff {leaves : List Nat} {size : Nat} :
    leaves.Perm (List.range size) ↔
      leaves.length = size ∧ leaves.Nodup ∧ ∀ leaf ∈ leaves, leaf < size := by
  constructor
  · intro h
    refine ⟨?_, h.nodup_iff.mpr List.nodup_range, fun leaf hleaf => ?_⟩
    · rw [h.length_eq, List.length_range]
    · exact List.mem_range.mp (h.subset hleaf)
  · intro h
    obtain ⟨hlength, hnodup, hrange⟩ := h
    have hsub : leaves ⊆ List.range size := fun leaf hleaf => List.mem_range.mpr (hrange leaf hleaf)
    apply (hnodup.subperm hsub).perm_of_length_le
    rw [List.length_range]
    exact Nat.le_of_eq hlength.symm

theorem exists_ofParts_iff :
    (∃ ragged, ofParts flat shape = .ok ragged) ↔
      shape.leaves.Perm (List.range flat.length) := by
  rw [perm_range_iff]
  constructor
  · intro h
    obtain ⟨ragged, h⟩ := h
    obtain ⟨hlength, hnodup, hrange, -⟩ := ofParts_eq_ok_iff.mp h
    exact ⟨hlength, hnodup, hrange⟩
  · intro h
    obtain ⟨hlength, hnodup, hrange⟩ := h
    exact ⟨_, ofParts_eq_ok_iff.mpr ⟨hlength, hnodup, hrange, rfl⟩⟩

theorem ofParts_eq_shapeMismatch_iff :
    ofParts flat shape = .error (.shapeMismatch shape.leaves.length flat.length) ↔
      shape.leaves.length ≠ flat.length := by
  by_cases hlength : shape.leaves.length = flat.length
  · simp only [ofParts, hlength, if_true, ne_eq, not_true_eq_false, iff_false]
    split <;> simp
  · simp [ofParts, hlength]

theorem ofParts_eq_leafNotUnique_iff {leaf : Nat} :
    ofParts flat shape = .error (.leafNotUnique leaf) ↔
      shape.leaves.length = flat.length ∧ FirstBad flat.length shape.leaves leaf := by
  rw [← firstBadLeaf_replicate_iff]
  by_cases hlength : shape.leaves.length = flat.length
  · simp only [ofParts, hlength, if_true, true_and]
    split
    · next found hbad => simp [hbad]
    · next hbad => simp [hbad]
  · simp [ofParts, hlength]

theorem exists_firstBad (hlength : shape.leaves.length = flat.length)
    (h : ¬shape.leaves.Perm (List.range flat.length)) :
    ∃ leaf, FirstBad flat.length shape.leaves leaf := by
  cases hbad : firstBadLeaf (Array.replicate flat.length false) shape.leaves with
  | none =>
      obtain ⟨hnodup, hrange⟩ := firstBadLeaf_eq_none_iff.mp hbad
      simp only [getElem?_replicate_false] at hrange
      exact absurd (perm_range_iff.mpr ⟨hlength, hnodup, hrange⟩) h
  | some leaf => exact ⟨leaf, firstBadLeaf_replicate_iff.mp hbad⟩

section Made

variable (h : ofParts flat shape = .ok ragged)

include h

theorem perm_of_ofParts : ragged.flat.Perm flat := by
  have hperm := exists_ofParts_iff.mp ⟨ragged, h⟩
  obtain ⟨-, -, -, rfl⟩ := ofParts_eq_ok_iff.mp h
  have hflat := hperm.filterMap fun leaf => flat[leaf]?
  rwa [filterMap_range_getElem?] at hflat

-- The values stand in the order of the leaves that pointed to them.
theorem map_some_of_ofParts : ragged.flat.map some = shape.leaves.map fun leaf => flat[leaf]? := by
  obtain ⟨-, -, hrange, rfl⟩ := ofParts_eq_ok_iff.mp h
  rw [List.map_filterMap_some_eq_filter_map_isSome, List.filter_eq_self]
  intro value hvalue
  obtain ⟨leaf, hleaf, rfl⟩ := List.mem_map.mp hvalue
  rw [List.getElem?_eq_getElem (hrange leaf hleaf)]
  rfl

theorem map_some_toNested_of_ofParts :
    ragged.toNested.map some = shape.map fun leaf => flat[leaf]? := by
  apply Nested.eq_of_blank
  · obtain ⟨-, -, -, rfl⟩ := ofParts_eq_ok_iff.mp h
    rw [Nested.blank_map, blank_toNested, Nested.blank_numbered, Nested.blank_map]
  · rw [Nested.leaves_map, (canonical_of_ofParts h).leaves_toNested, Nested.leaves_map,
      map_some_of_ofParts h]

end Made

-- A row and a nesting are put together just if the leaves, in whatever order, are the
-- positions of the row. Otherwise the counts are told where they differ, and else the first
-- leaf that is out of range or repeated. What is made has each leaf replaced by the value
-- that it points to, and holds every value of the row once.
theorem parts_accepted_exactly {leaves : List Nat} (hleaves : shape.DepthFirst leaves) :
    ((∃ ragged, ofParts flat shape = .ok ragged) ↔ leaves.Perm (List.range flat.length)) ∧
    (ofParts flat shape = .error (.shapeMismatch leaves.length flat.length) ↔
      leaves.length ≠ flat.length) ∧
    (∀ leaf, ofParts flat shape = .error (.leafNotUnique leaf) ↔
      leaves.length = flat.length ∧ FirstBad flat.length leaves leaf) ∧
    (leaves.length = flat.length → ¬leaves.Perm (List.range flat.length) →
      ∃ leaf, FirstBad flat.length leaves leaf) ∧
    ∀ ragged, ofParts flat shape = .ok ragged →
      ragged.toNested.map some = shape.map (fun leaf => flat[leaf]?) ∧
      ragged.toNested.DepthFirst ragged.flat ∧ ragged.flat.Perm flat := by
  obtain rfl := hleaves.leaves_eq
  refine ⟨exists_ofParts_iff, ofParts_eq_shapeMismatch_iff,
    fun leaf => ofParts_eq_leafNotUnique_iff, exists_firstBad, fun ragged h => ⟨?_, ?_, ?_⟩⟩
  · exact map_some_toNested_of_ofParts h
  · exact Nested.depthFirst_iff.mpr (canonical_of_ofParts h).leaves_toNested
  · exact perm_of_ofParts h

-- Three values that the leaves point to out of order, with an empty group between them.
private def shuffled : Shape :=
  .list [.list [.leaf 2], .list [], .list [.leaf 0, .leaf 1]]

theorem shuffled_accepted : shuffled.DepthFirst [2, 0, 1] ∧
    ∃ ragged, ofParts [.text "a", .null, .text "b"] shuffled = .ok ragged ∧
      ragged.toNested.DepthFirst [.text "b", .text "a", .null] := by
  have hleaves : shuffled.DepthFirst [2, 0, 1] := Nested.depthFirst_iff.mpr rfl
  obtain ⟨haccepted, -, -, -, hmade⟩ :=
    @parts_accepted_exactly [.text "a", .null, .text "b"] shuffled _ hleaves
  obtain ⟨ragged, h⟩ := haccepted.mpr (by decide)
  refine ⟨hleaves, ragged, h, ?_⟩
  obtain ⟨-, hdepth, -⟩ := hmade ragged h
  obtain rfl := Except.ok.inj h
  exact hdepth

end Dataflow.Ragged
