import Dataflow.Proofs.Forest

namespace Dataflow.Forest

open Relation

universe u

variable {α : Type u} {forest : Forest α}

-- What can be done to a forest.
inductive Change (α : Type u) where
  | insert (data : α)
  | insertChild (parent : ItemId) (row : Nat) (child : ItemId)
  | appendChild (parent child : ItemId)
  | removeChild (parent : ItemId) (row : Nat)
  | detach (id : ItemId)
  | take (id : ItemId)

-- The forest after a change; one that is refused leaves it as it was.
def perform (forest : Forest α) : Change α → Forest α
  | .insert data => (forest.insert data).2
  | .insertChild parent row child => (forest.insertChild? parent row child).getD forest
  | .appendChild parent child => (forest.appendChild? parent child).getD forest
  | .removeChild parent row => (forest.removeChild? parent row).getD forest
  | .detach id => (forest.detach? id).getD forest
  | .take id => (forest.take id).2

-- Only an item that hangs from nothing may be put under another.
def Allows (forest : Forest α) : Change α → Prop
  | .insertChild _ _ child => forest.parent? child = none
  | .appendChild _ child => forest.parent? child = none
  | _ => True

-- The forests that can come about: what changes make of the empty one, in any order and
-- with any identifiers and rows.
inductive Grown : Forest α → Prop where
  | empty : Grown empty
  | performed {forest : Forest α} (change : Change α) (h : Grown forest)
      (hallows : forest.Allows change) : Grown (forest.perform change)

theorem Tidy.insertChild (ht : forest.Tidy) {parent child : ItemId} {row : Nat}
    (hloose : forest.parent? child = none) :
    ((forest.insertChild? parent row child).getD forest).Tidy := by
  cases h : forest.insertChild? parent row child with
  | none => exact ht
  | some other =>
      refine ht.place hloose (fun hup => ?_) (insertChild?_eq_some h).2.2
      rw [ht.insertChild?_refused_iff.mpr (.inl hup)] at h
      cases h

-- A forest that is tidy stays so whatever is done to it.
theorem Tidy.performed (ht : forest.Tidy) {change : Change α} (hallows : forest.Allows change) :
    (forest.perform change).Tidy := by
  cases change with
  | insert data => exact ht.insert data
  | insertChild parent row child => exact ht.insertChild hallows
  | appendChild parent child => exact ht.insertChild hallows
  | removeChild parent row =>
      rw [perform]
      cases h : forest.removeChild? parent row with
      | none => exact ht
      | some other =>
          obtain ⟨child, -, hdetached⟩ := ht.removeChild?_eq_some h
          exact ht.detach hdetached
  | detach id => exact ht.detach (ht.detached id)
  | take id =>
      rw [perform]
      by_cases h : forest.contains id = true
      · exact (ht.take h).1
      · rw [Forest.take, if_neg h]
        exact ht

theorem Grown.tidy (h : forest.Grown) : forest.Tidy := by
  induction h with
  | empty => exact .empty
  | performed _ _ hallows ih => exact ih.performed hallows

-- Whatever has been done to a forest, parents and children know each other, each child
-- stands once and at its row, the ways up end, and no item can be put under itself, under
-- what is below it, or where one of the two is unknown.
theorem grown_stays_forest (h : forest.Grown) :
    (∀ parent child, child ∈ forest.children parent ↔ forest.parent? child = some parent) ∧
    (∀ parent child, forest.parent? child = some parent →
      (forest.children parent).count child = 1 ∧
      (∃ row, forest.row? child = some row ∧ (forest.children parent)[row]? = some child) ∧
      forest.contains parent = true ∧ forest.contains child = true) ∧
    (∀ a b, forest.isAncestor a b = true ↔ TransGen forest.Under b a) ∧
    (∀ a, forest.isAncestor a a = false) ∧
    (WellFounded fun above a => forest.parent? a = some above) ∧
    ∀ parent row child,
      (forest.insertChild? parent row child = none ↔ forest.Unfit parent child) ∧
      (forest.appendChild? parent child = none ↔ forest.Unfit parent child) ∧
      (forest.Unfit parent child →
        forest.perform (.insertChild parent row child) = forest ∧
        forest.perform (.appendChild parent child) = forest) := by
  have ht := h.tidy
  refine ⟨fun _ _ => ht.listed, fun parent child hchild => ?_, fun _ _ => ht.isAncestor_iff,
    fun a => ?_, ht.founded_above, fun parent row child => ?_⟩
  · have hmem : child ∈ forest.children parent := ht.listed.mpr hchild
    refine ⟨List.count_eq_one_of_mem (ht.once parent) hmem, ht.exists_row hchild, ?_, ?_⟩
    · exact (Arena.contains_iff _ _).mpr ((Arena.mem_ids_iff _ _).mp (mem_ids_of_children hmem))
    · exact (Arena.contains_iff _ _).mpr ((Arena.mem_ids_iff _ _).mp (mem_ids_of_parent hchild))
  · rw [← Bool.not_eq_true, ht.isAncestor_iff]
    exact ht.irrefl a
  · refine ⟨ht.insertChild?_refused_iff, ht.insertChild?_refused_iff, fun hunfit => ?_⟩
    rw [perform, perform, appendChild?, ht.insertChild?_refused_iff.mpr hunfit,
      ht.insertChild?_refused_iff.mpr hunfit]
    exact ⟨rfl, rfl⟩

-- A root with one child that has a child of its own.
def sapling : Forest String :=
  ((((empty.perform (.insert "root")).perform (.insert "branch")).perform (.insert "leaf")).perform
    (.appendChild ⟨1⟩ ⟨2⟩)).perform (.insertChild ⟨2⟩ 9 ⟨3⟩)

theorem sapling_grown : sapling.Grown := by
  repeat refine .performed _ ?_ (by trivial)
  exact .empty

-- The root goes neither under the leaf nor under an item that is not there.
theorem sapling_stays_forest : sapling.Grown ∧
    (∃ row, sapling.row? ⟨3⟩ = some row ∧ (sapling.children ⟨2⟩)[row]? = some ⟨3⟩) ∧
    sapling.isAncestor ⟨3⟩ ⟨3⟩ = false ∧
    sapling.appendChild? ⟨3⟩ ⟨1⟩ = none ∧ sapling.appendChild? ⟨4⟩ ⟨1⟩ = none := by
  obtain ⟨-, hplaced, hup, hself, -, hrefused⟩ := grown_stays_forest sapling_grown
  refine ⟨sapling_grown, (hplaced ⟨2⟩ ⟨3⟩ (by decide)).2.1, hself ⟨3⟩, ?_, ?_⟩
  · refine (hrefused ⟨3⟩ 0 ⟨1⟩).2.1.mpr (.inl ((hup ⟨1⟩ ⟨3⟩).mp ?_).to_reflTransGen)
    decide
  · refine (hrefused ⟨4⟩ 0 ⟨1⟩).2.1.mpr (.inr (.inl ?_))
    decide

end Dataflow.Forest
