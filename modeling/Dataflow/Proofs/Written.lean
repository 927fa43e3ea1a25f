import Dataflow.Proofs.Grown

namespace Dataflow.Forest

universe u v

variable {α : Type u} (forest : Forest α) (id : ItemId) (data : α)

section Shape

-- Whatever can be told from an item without its data is the same.
theorem map_find?_set {β : Type v} (read : Item α → β)
    (hread : ∀ item : Item α, read { item with data := data } = read item) (a : ItemId) :
    ((forest.set id data).items.find? a).map read = (forest.items.find? a).map read := by
  rw [set, Arena.find?_modify, Option.map_map]
  congr 1
  funext item
  rw [Function.comp_apply]
  split_ifs
  · exact hread item
  · rfl

@[simp]
theorem parent?_set : (forest.set id data).parent? = forest.parent? := by
  funext a
  have hmap := congrArg (·.bind fun parent => parent)
    (forest.map_find?_set id data (·.parent) (fun _ => rfl) a)
  rwa [Option.bind_map, Option.bind_map] at hmap

@[simp]
theorem children_set : (forest.set id data).children = forest.children := by
  funext a
  rw [children, map_find?_set forest id data (·.children) fun _ => rfl, children]

@[simp]
theorem contains_set : (forest.set id data).contains = forest.contains := by
  funext a
  rw [Bool.eq_iff_iff, contains, contains, Arena.contains_iff, Arena.contains_iff, set,
    Arena.find?_modify]
  cases forest.items.find? a <;> simp

@[simp]
theorem size_set : (forest.set id data).size = forest.size :=
  Arena.size_modify ..

@[simp]
theorem isAncestor_set : (forest.set id data).isAncestor = forest.isAncestor := by
  have hclimb : ∀ fuel a, (forest.set id data).climb fuel a = forest.climb fuel a := by
    intro fuel
    induction fuel with
    | zero => exact fun _ => rfl
    | succ fuel ih => simp [climb, ih]
  funext a b
  rw [isAncestor, ancestors, hclimb, size_set]
  rfl

@[simp]
theorem descendants_set : (forest.set id data).descendants = forest.descendants := by
  have hwalk : ∀ fuel stack, (forest.set id data).walk fuel stack = forest.walk fuel stack := by
    intro fuel
    induction fuel with
    | zero => exact fun _ => rfl
    | succ fuel ih =>
        intro stack
        cases stack with
        | nil => rfl
        | cons a stack => simp [walk, ih]
  funext a
  rw [descendants, hwalk, size_set, children_set]
  rfl

@[simp]
theorem row?_set : (forest.set id data).row? = forest.row? := by
  funext a
  simp only [row?, parent?_set, children_set]

end Shape

section Commute

-- A change to an item that leaves its data alone can as well be made after they are written.
theorem set_modify_comm {f : Item α → Item α}
    (hf : ∀ item : Item α, f { item with data := data } = { f item with data := data })
    (a : ItemId) : (⟨forest.items.modify a f⟩ : Forest α).set id data =
      ⟨(forest.set id data).items.modify a f⟩ :=
  congrArg Forest.mk (Arena.modify_comm hf forest.items a id)

theorem insertChild?_set (parent : ItemId) (row : Nat) (child : ItemId) :
    (forest.set id data).insertChild? parent row child =
      (forest.insertChild? parent row child).map fun other => other.set id data := by
  simp only [insertChild?, contains_set, isAncestor_set]
  split
  · rfl
  · rw [Option.map_some, set_modify_comm, set_modify_comm] <;> exact fun _ => rfl

theorem removeChild?_set (parent : ItemId) (row : Nat) :
    (forest.set id data).removeChild? parent row =
      (forest.removeChild? parent row).map fun other => other.set id data := by
  simp only [removeChild?, child?, children_set, Option.map_map]
  congr 1
  funext child
  rw [Function.comp_apply, set_modify_comm, set_modify_comm] <;> exact fun _ => rfl

theorem detach?_set (a : ItemId) :
    (forest.set id data).detach? a = (forest.detach? a).map fun other => other.set id data := by
  simp only [detach?, parent?_set, row?_set]
  split
  · exact removeChild?_set ..
  · rfl

theorem getD_set (other : Option (Forest α)) :
    (other.map fun other => other.set id data).getD (forest.set id data) =
      (other.getD forest).set id data := by
  cases other <;> rfl

theorem take_set (a : ItemId) :
    ((forest.set id data).take a).2 = (forest.take a).2.set id data := by
  simp only [take, contains_set, detach?_set, getD_set, descendants_set]
  split
  · simp only [set, Arena.keep_modify]
  · rfl

theorem insert_set (first : α) :
    ((forest.insert first).2).set id data =
      ((forest.set id data).insert (if forest.items.fresh = id then data else first)).2 := by
  simp only [insert, set, Arena.insert_modify]
  split <;> rfl

-- Whatever is done before data are written can be done after it, or with them.
theorem exists_perform_set (change : Change α) : ∃ other,
    (forest.perform change).set id data = (forest.set id data).perform other ∧
      (forest.Allows change → (forest.set id data).Allows other) := by
  cases change with
  | insert first => exact ⟨.insert _, forest.insert_set id data first, fun _ => trivial⟩
  | insertChild parent row child =>
      refine ⟨.insertChild parent row child, ?_, fun h => ?_⟩
      · rw [perform, perform, insertChild?_set, getD_set]
      · rwa [Allows, parent?_set]
  | appendChild parent child =>
      refine ⟨.appendChild parent child, ?_, fun h => ?_⟩
      · simp only [perform, appendChild?, childCount, children_set, insertChild?_set, getD_set]
      · rwa [Allows, parent?_set]
  | removeChild parent row =>
      refine ⟨.removeChild parent row, ?_, fun _ => trivial⟩
      rw [perform, perform, removeChild?_set, getD_set]
  | detach a =>
      refine ⟨.detach a, ?_, fun _ => trivial⟩
      rw [perform, perform, detach?_set, getD_set]
  | take a => exact ⟨.take a, (forest.take_set id data a).symm, fun _ => trivial⟩

end Commute

variable {forest}

-- A forest in which data have been written is one that can come about without, as they
-- could have been there from the start.
theorem Grown.set (h : forest.Grown) : (forest.set id data).Grown := by
  induction h with
  | empty => exact .empty
  | @performed forest change _ hallows ih =>
      obtain ⟨other, heq, hallows'⟩ := forest.exists_perform_set id data change
      rw [heq]
      exact .performed other ih (hallows' hallows)

end Dataflow.Forest
