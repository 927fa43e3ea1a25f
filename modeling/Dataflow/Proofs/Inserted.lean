import Dataflow.Proofs.Grown

namespace Dataflow.Forest

universe u

variable {α : Type u} {forest other : Forest α} {parent child : ItemId} {row : Nat}

theorem Placed.child?_eq (h : Placed forest parent row child other) :
    other.child? parent (min row (forest.childCount parent)) = some child := by
  rw [child?, h.below, if_pos rfl, List.getElem?_insertIdx_self]
  exact if_pos (Nat.min_le_right _ _)

-- The children that were there before stand around the new one, in their order.
theorem Placed.exists_around (h : Placed forest parent row child other) :
    ∃ front back, forest.children parent = front ++ back ∧
      other.children parent = front ++ child :: back := by
  have hat := h.child?_eq
  have hbelow := (h.below parent).trans (if_pos rfl)
  generalize min row (forest.childCount parent) = place at hat hbelow
  obtain ⟨hlt, heq⟩ := List.getElem?_eq_some_iff.mp hat
  refine ⟨(other.children parent).take place, (other.children parent).drop (place + 1), ?_, ?_⟩
  · rw [← List.eraseIdx_eq_take_drop_succ, hbelow, List.eraseIdx_insertIdx_self]
  · rw [← heq, ← List.drop_eq_getElem_cons hlt, List.take_append_drop]

-- It stands once, so the search for it ends where it was put.
theorem Tidy.row?_placed (ht : other.Tidy) (h : Placed forest parent row child other) :
    other.row? child = some (min row (forest.childCount parent)) := by
  obtain ⟨found, hrow, hfound⟩ := ht.exists_row ((h.above child).trans (if_pos rfl))
  obtain ⟨hlt, -⟩ := List.getElem?_eq_some_iff.mp hfound
  have hsame : found = min row (forest.childCount parent) :=
    (List.getElem?_inj hlt (ht.once parent)).mp (hfound.trans h.child?_eq.symm)
  rw [hrow, hsame]

-- What an insertion writes into the two items, a removal at that row takes out of them.
theorem removeChild?_inserted (hloose : forest.parent? child = none)
    (h : forest.insertChild? parent row child = some other) :
    other.removeChild? parent (min row (forest.childCount parent)) = some forest := by
  obtain ⟨hne, -, hplaced⟩ := insertChild?_eq_some h
  rw [removeChild?, hplaced.child?_eq, Option.map_some]
  rw [insertChild?] at h
  obtain ⟨-, h⟩ := Option.ite_none_left_eq_some.mp h
  obtain rfl := Option.some.inj h
  refine congrArg (fun items => some (Forest.mk items)) ?_
  simp only [Arena.modify, Arena.update_update]
  refine Arena.update_eq_self _ fun id item hitem => ?_
  by_cases hp : id = parent
  · subst hp
    have hcount : forest.childCount id = item.children.length := by
      rw [childCount, children, hitem]
      rfl
    simp [hne, hcount, List.eraseIdx_insertIdx_self]
  · by_cases hc : id = child
    · subst hc
      have hnone : item.parent = none := by
        rwa [parent?, hitem] at hloose
      simp [hp, ← hnone]
    · simp [hp, hc]

-- An item put under another is found at the row that was asked for, or behind all the
-- children where there are fewer. They stand around it as they stood, nothing else has
-- moved, and taken out from where it is found it leaves the forest that was there before.
theorem inserted_comes_out_again (h : forest.Grown) (hloose : forest.parent? child = none)
    (hinsert : forest.insertChild? parent row child = some other) :
    other.row? child = some (min row (forest.childCount parent)) ∧
    (∃ front back, forest.children parent = front ++ back ∧
      other.children parent = front ++ child :: back) ∧
    (∀ a, a ≠ parent → other.children a = forest.children a) ∧
    other.parent? child = some parent ∧
    (∀ a, a ≠ child → other.parent? a = forest.parent? a) ∧
    (∀ a, other.get? a = forest.get? a) ∧
    (other.row? child).bind (other.removeChild? parent) = some forest ∧
    other.detach? child = some forest := by
  obtain ⟨-, -, hplaced⟩ := insertChild?_eq_some hinsert
  have ht : other.Tidy := by
    have hplanted : ((forest.insertChild? parent row child).getD forest).Tidy :=
      h.tidy.insertChild hloose
    rwa [hinsert] at hplanted
  have hrow := ht.row?_placed hplaced
  have hup : other.parent? child = some parent := (hplaced.above child).trans (if_pos rfl)
  have hback := removeChild?_inserted hloose hinsert
  refine ⟨hrow, hplaced.exists_around, fun a => hplaced.below_of_ne, hup, fun a ha => ?_,
    hplaced.data, ?_, ?_⟩
  · rw [hplaced.above, if_neg ha]
  · rwa [hrow, Option.bind_some]
  · rw [detach?, hup, hrow]
    exact hback

-- A root with two children, and beside it a shoot with a bud that hangs from nothing.
def nursery : Forest String :=
  ((((sapling.perform (.insert "shoot")).perform (.insert "bud")).perform
    (.insert "twig")).perform (.appendChild ⟨4⟩ ⟨5⟩)).perform (.appendChild ⟨1⟩ ⟨6⟩)

theorem nursery_grown : nursery.Grown := by
  refine .performed _ ?_ rfl
  refine .performed _ ?_ rfl
  iterate 3 refine .performed _ ?_ trivial
  exact sapling_grown

-- The shoot goes between the branch and the twig, and comes out again.
theorem shoot_comes_out_again : nursery.Grown ∧ nursery.parent? ⟨4⟩ = none ∧
    ∃ planted, nursery.insertChild? ⟨1⟩ 1 ⟨4⟩ = some planted ∧ planted.row? ⟨4⟩ = some 1 ∧
      planted.children ⟨1⟩ = [⟨2⟩, ⟨4⟩, ⟨6⟩] ∧ planted.detach? ⟨4⟩ = some nursery := by
  have hloose : nursery.parent? ⟨4⟩ = none := by decide
  have hplanted : nursery.insertChild? ⟨1⟩ 1 ⟨4⟩ =
      some (nursery.perform (.insertChild ⟨1⟩ 1 ⟨4⟩)) :=
    (Option.getD_of_ne_none (by decide) nursery).symm
  obtain ⟨hrow, -, -, -, -, -, -, hback⟩ :=
    inserted_comes_out_again nursery_grown hloose hplanted
  exact ⟨nursery_grown, hloose, _, hplanted, hrow, by decide, hback⟩

end Dataflow.Forest
