import Dataflow.Closure
import Mathlib.Data.List.Nodup
import Mathlib.Data.List.Perm.Subperm
import Mathlib.Logic.Relation

namespace Dataflow.Closure

variable {ι : Type} [DecidableEq ι]

-- One step of what is reached.
def Step (next : ι → List ι) (a b : ι) : Prop :=
  b ∈ next a

theorem mem_unseen_iff (seen candidates : List ι) (a : ι) :
    a ∈ unseen seen candidates ↔ a ∈ candidates ∧ a ∉ seen := by
  induction candidates generalizing seen with
  | nil => simp [unseen]
  | cons head rest ih =>
      simp only [unseen]
      split
      · next h =>
        rw [ih, List.mem_cons]
        constructor
        · rintro ⟨hr, hs⟩
          exact ⟨.inr hr, hs⟩
        · rintro ⟨rfl | hr, hs⟩
          · exact absurd h hs
          · exact ⟨hr, hs⟩
      · next h =>
        rw [List.mem_cons, ih, List.mem_cons, List.mem_cons]
        constructor
        · rintro (rfl | ⟨hr, hs⟩)
          · exact ⟨.inl rfl, h⟩
          · exact ⟨.inr hr, fun ha => hs (.inr ha)⟩
        · rintro ⟨rfl | hr, hs⟩
          · exact .inl rfl
          · by_cases he : a = head
            · exact .inl he
            · exact .inr ⟨hr, fun ha => ha.elim he hs⟩

theorem unseen_nodup (seen candidates : List ι) : (unseen seen candidates).Nodup := by
  induction candidates generalizing seen with
  | nil => simp [unseen]
  | cons head rest ih =>
      simp only [unseen]
      split
      · exact ih seen
      · refine List.nodup_cons.mpr ⟨?_, ih _⟩
        intro hm
        exact ((mem_unseen_iff _ _ _).mp hm).2 (by simp)

theorem subset_grow (next : ι → List ι) (rounds : Nat) (seen frontier : List ι) :
    seen ⊆ grow next rounds seen frontier := by
  induction rounds generalizing seen frontier with
  | zero => exact List.Subset.refl _
  | succ rounds ih =>
      simp only [grow]
      split
      · exact List.Subset.refl _
      · exact List.Subset.trans (List.subset_append_left _ _) (ih _ _)

-- Nothing is found that no steps lead to.
theorem reached_of_mem_grow (next : ι → List ι) (start : ι) (rounds : Nat)
    (seen frontier : List ι) (hf : frontier ⊆ seen)
    (hs : ∀ a ∈ seen, Relation.ReflTransGen (Step next) start a) :
    ∀ a ∈ grow next rounds seen frontier, Relation.ReflTransGen (Step next) start a := by
  induction rounds generalizing seen frontier with
  | zero => exact hs
  | succ rounds ih =>
      simp only [grow]
      split
      · exact hs
      · apply ih _ _ (List.subset_append_right _ _)
        intro a ha
        rcases List.mem_append.mp ha with ha | ha
        · exact hs a ha
        · obtain ⟨b, hb, hab⟩ := List.mem_flatMap.mp ((mem_unseen_iff _ _ _).mp ha).1
          exact (hs b (hf hb)).tail hab

-- Every seen thing outside the frontier has had its turn. When the rounds run out there
-- is nothing left to find.
theorem grow_closed (next : ι → List ι) (everything : List ι)
    (hnext : ∀ a, next a ⊆ everything) (rounds : Nat) (seen frontier : List ι)
    (hseen : seen ⊆ everything) (hn : seen.Nodup)
    (hdone : ∀ a ∈ seen, a ∉ frontier → next a ⊆ seen)
    (hr : everything.length ≤ rounds + seen.length) :
    ∀ a ∈ grow next rounds seen frontier, next a ⊆ grow next rounds seen frontier := by
  induction rounds generalizing seen frontier with
  | zero =>
      have hp := (List.Nodup.subperm hn hseen).perm_of_length_le (by omega)
      intro a _ b hb
      exact hp.mem_iff.mpr (hnext a hb)
  | succ rounds ih =>
      simp only [grow]
      split
      · next h =>
        intro a ha b hb
        by_contra hnot
        by_cases hf : a ∈ frontier
        · have hm : b ∈ unseen seen (frontier.flatMap next) :=
            (mem_unseen_iff _ _ _).mpr ⟨List.mem_flatMap.mpr ⟨a, hf, hb⟩, hnot⟩
          simp [h] at hm
        · exact hnot (hdone a ha hf hb)
      · next h =>
        apply ih
        · intro a ha
          rcases List.mem_append.mp ha with ha | ha
          · exact hseen ha
          · obtain ⟨b, _, hab⟩ := List.mem_flatMap.mp ((mem_unseen_iff _ _ _).mp ha).1
            exact hnext b hab
        · refine List.nodup_append.mpr ⟨hn, unseen_nodup _ _, ?_⟩
          rintro a ha b hb rfl
          exact ((mem_unseen_iff _ _ _).mp hb).2 ha
        · intro a ha hf b hb
          rcases List.mem_append.mp ha with ha | ha
          · by_cases hold : a ∈ frontier
            · by_cases hb' : b ∈ seen
              · exact List.mem_append_left _ hb'
              · exact List.mem_append_right _ ((mem_unseen_iff _ _ _).mpr
                  ⟨List.mem_flatMap.mpr ⟨a, hold, hb⟩, hb'⟩)
            · exact List.mem_append_left _ (hdone a ha hold hb)
          · exact absurd ha hf
        · have hpos := List.length_pos_iff.mpr h
          rw [List.length_append]
          omega

-- As many rounds as there are things to find are enough.
theorem mem_reached_iff (next : ι → List ι) (everything : List ι)
    (hnext : ∀ a, next a ⊆ everything) (rounds : Nat) (hr : everything.length ≤ rounds)
    (start target : ι) :
    target ∈ reached next rounds start ↔ Relation.ReflTransGen (Step next) start target := by
  constructor
  · apply reached_of_mem_grow next start rounds [start] [start] (List.Subset.refl _)
    simpa using Relation.ReflTransGen.refl
  · intro h
    have hclosed := grow_closed next (start :: everything)
      (fun a => List.subset_cons_of_subset _ (hnext a)) rounds [start] [start]
      (by simp) (by simp) (by simp) (by simp; omega)
    induction h with
    | refl => exact subset_grow _ _ _ _ (by simp)
    | tail _ hstep ih => exact hclosed _ ih hstep

end Dataflow.Closure
