import Dataflow.Proofs.Written

namespace Dataflow.Forest

open Relation

universe u

variable {α : Type u} {forest : Forest α} {top : ItemId}

-- What is left of a forest when an item has been taken with all that stands below it: the
-- other items as they were, except that the one that it was a child of has it no more.
structure Felled (forest : Forest α) (top : ItemId) (other : Forest α) : Prop where
  left : ∀ a, other.contains a = true ↔
    forest.contains a = true ∧ a ≠ top ∧ a ∉ forest.descendants top
  data : ∀ a, other.contains a = true → other.get? a = forest.get? a
  above : ∀ a, other.contains a = true → other.parent? a = forest.parent? a
  below : ∀ a, other.contains a = true → other.children a =
    if forest.parent? top = some a then (forest.children a).erase top else forest.children a

section Taken

variable (ht : forest.Tidy)

include ht

-- To take an item off its parent changes nothing below it.
theorem Tidy.descendants_detached {loose : Forest α} (h : Detached forest top loose) :
    loose.descendants top = forest.descendants top := by
  have hsame : ∀ a ∈ top :: forest.descendants top, loose.children a = forest.children a := by
    intro a ha
    rw [h.below, List.erase_of_not_mem]
    intro htop
    have hup := ht.mem_cons_descendants_iff.mp ha
    exact ht.irrefl top (TransGen.head' (ht.listed.mp htop) hup)
  obtain ⟨htop, hbelow⟩ := List.forall_mem_cons.mp hsame
  have hwalks := (ht.walks_descendants top).congr hbelow
  rw [← htop] at hwalks
  exact ((ht.detach h).walks_descendants top).unique hwalks

variable (h : forest.contains top = true)

include h

theorem Tidy.map_some_take :
    (forest.take top).1.map some = (top :: forest.descendants top).map forest.get? := by
  have hloose := ht.detached top
  have hget : ((forest.detach? top).getD forest).get? = forest.get? := funext hloose.data
  have hpresent : ∀ a ∈ top :: forest.descendants top, (forest.get? a).isSome = true := by
    intro a ha
    rw [← contains_eq]
    rcases List.mem_cons.mp ha with rfl | ha
    · exact h
    · have hids := mem_ids_of_below (ht.mem_descendants_iff.mp ha)
      exact (Arena.contains_iff _ _).mpr ((Arena.mem_ids_iff _ _).mp hids)
  simp only [Forest.take, if_pos h, ht.descendants_detached hloose, hget]
  rw [List.map_filterMap_some_eq_filter_map_isSome, List.filter_eq_self]
  intro data hdata
  obtain ⟨a, ha, rfl⟩ := List.mem_map.mp hdata
  exact hpresent a ha

theorem Tidy.felled : Felled forest top (forest.take top).2 := by
  obtain ⟨-, hpruned⟩ := ht.take h
  have hleft : ∀ a, (forest.take top).2.contains a = true ↔
      forest.contains a = true ∧ ¬ ReflTransGen forest.Under a top := by
    intro a
    by_cases hup : ReflTransGen forest.Under a top
    · simp [contains_eq, hpruned.gone hup, hup]
    · simp [contains_eq, hpruned.data hup, hup]
  have hstays : ∀ {a}, (forest.take top).2.contains a = true →
      ¬ ReflTransGen forest.Under a top := fun ha => ((hleft _).mp ha).2
  constructor
  case left =>
    intro a
    rw [hleft, ← ht.mem_cons_descendants_iff, List.mem_cons, not_or]
  case data => exact fun a ha => hpruned.data (hstays ha)
  case above => exact fun a ha => hpruned.above (hstays ha)
  case below =>
    intro a ha
    rw [ht.children_take_eq_erase h (hstays ha)]
    split
    · rfl
    · next hparent => exact List.erase_of_not_mem fun hmem => hparent (ht.listed.mp hmem)

end Taken

-- What stands below an item is listed in pre-order, each item once, and is just what has
-- that item above it. To take the item takes it and these, hands out their data in this
-- order, and leaves all the rest as it was.
theorem taken_is_subtree (h : forest.Grown) (htop : forest.contains top = true) :
    (∀ listing, forest.Listing (forest.children top) listing ↔
      listing = forest.descendants top) ∧
    (forest.descendants top).Nodup ∧ top ∉ forest.descendants top ∧
    (∀ a, a ∈ forest.descendants top ↔ forest.isAncestor top a = true) ∧
    (forest.take top).1.map some = (top :: forest.descendants top).map forest.get? ∧
    Felled forest top (forest.take top).2 := by
  have ht := h.tidy
  refine ⟨fun listing => ht.listing_iff, ht.nodup_descendants top, fun hmem => ?_, fun a => ?_,
    ht.map_some_take htop, ht.felled htop⟩
  · exact ht.irrefl top (ht.mem_descendants_iff.mp hmem)
  · rw [ht.mem_descendants_iff, ht.isAncestor_iff]

-- The branch of a sapling between two buds, with new data at its leaf.
private def budding : Forest String :=
  ((((sapling.perform (.insert "low")).perform (.insertChild ⟨1⟩ 0 ⟨4⟩)).perform
    (.insert "high")).perform (.appendChild ⟨1⟩ ⟨5⟩)).set ⟨3⟩ "flower"

theorem budding_loses_branch : budding.Grown ∧ budding.contains ⟨2⟩ = true ∧
    (budding.take ⟨2⟩).1 = ["branch", "flower"] ∧
    (budding.take ⟨2⟩).2.children ⟨1⟩ = [⟨4⟩, ⟨5⟩] ∧ (budding.take ⟨2⟩).2.contains ⟨3⟩ = false := by
  have hgrown : budding.Grown := by
    apply Grown.set
    refine .performed _ ?_ rfl
    refine .performed _ ?_ trivial
    refine .performed _ ?_ rfl
    exact .performed _ sapling_grown trivial
  have hbranch : budding.contains ⟨2⟩ = true := by decide
  obtain ⟨-, -, -, hbelow, hdata, hfelled⟩ := taken_is_subtree hgrown hbranch
  refine ⟨hgrown, hbranch, ?_, ?_, ?_⟩
  · exact List.map_injective_iff.mpr (fun _ _ => Option.some.inj) hdata
  · rw [hfelled.below ⟨1⟩ (by decide)]
    decide
  · rw [← Bool.not_eq_true, hfelled.left]
    exact fun hleft => hleft.2.2 ((hbelow ⟨3⟩).mpr (by decide))

end Dataflow.Forest
