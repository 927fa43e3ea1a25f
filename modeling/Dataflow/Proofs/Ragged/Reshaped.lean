import Dataflow.Proofs.Ragged.Nesting

namespace Dataflow

namespace Nested

variable {α : Type} {nested : Nested α}

section Flatten

-- Where no list stands inside, there is nothing to splice.
theorem flatten_of_depth_le_one (h : nested.depth ≤ 1) :
    nested.flatten = nested := by
  cases nested with
  | leaf value => rfl
  | list children =>
      have hflat := depth_list_le_iff.mp h
      have hspliced : ∀ child ∈ children, child.spliced = [child] := by
        intro child hchild
        cases child with
        | leaf value => rfl
        | list inner =>
            have hone := one_le_depth_list inner
            have hzero := hflat _ hchild
            omega
      rw [flatten, List.flatMap_congr hspliced, List.flatMap_singleton']

-- What stands in an inner list comes to stand one level further up, and so does all below.
theorem mem_spliced_of_list {inner children : List (Nested α)} {child : Nested α}
    (hinner : list inner ∈ children) (hchild : child ∈ inner) :
    child ∈ children.flatMap spliced :=
  List.mem_flatMap.mpr ⟨_, hinner, hchild⟩

theorem depth_flatten (h : 2 ≤ nested.depth) :
    nested.flatten.depth = nested.depth - 1 := by
  cases nested with
  | leaf value => cases h
  | list children =>
      have hle : (list children).flatten.depth ≤ (list children).depth - 2 + 1 := by
        rw [flatten, depth_list_le_iff]
        intro spliced hspliced
        obtain ⟨child, hchild, hmem⟩ := List.mem_flatMap.mp hspliced
        have hlt := depth_lt_of_mem hchild
        cases child with
        | leaf value =>
            obtain rfl := List.mem_singleton.mp hmem
            exact Nat.zero_le _
        | list inner =>
            have hdeeper := depth_lt_of_mem (show spliced ∈ inner from hmem)
            omega
      have hge : (list children).depth ≤ (list children).flatten.depth + 1 := by
        rw [flatten, depth_list_le_iff]
        intro child hchild
        have hone := one_le_depth_list (children.flatMap spliced)
        cases child with
        | leaf value => exact Nat.zero_le _
        | list inner =>
            have hinner : (list inner).depth ≤ (list (children.flatMap spliced)).depth - 1 + 1 := by
              rw [depth_list_le_iff]
              intro grandchild hmem
              have hlt := depth_lt_of_mem (mem_spliced_of_list hchild hmem)
              omega
            omega
      omega

theorem flatten_graft_ofList (values : List α) : (ofList values).graft.flatten = ofList values := by
  rw [ofList, graft, bind_list, List.map_map, flatten, List.flatMap_map]
  exact congrArg list List.map_eq_flatMap.symm

end Flatten

section Simplify

theorem simplify_leaf (value : α) : (leaf value).simplify = leaf value := by
  rw [simplify]

-- No list, at any depth, has a list for its only child.
def Unwrapped (nested : Nested α) : Prop :=
  ∀ path inner, nested.at? path ≠ some (list [list inner])

theorem unwrapped_iff : nested.Unwrapped ↔
    ∀ path found, nested.at? path = some found → ∀ inner, found ≠ list [list inner] :=
  ⟨fun h path _ hat inner heq => h path inner (heq ▸ hat),
    fun h path inner hat => h path _ hat inner rfl⟩

theorem unwrapped_leaf (value : α) : (leaf value).Unwrapped := by
  rw [unwrapped_iff, forall_at?_leaf_iff]
  intro inner heq
  cases heq

theorem unwrapped_list_iff {children : List (Nested α)} :
    (list children).Unwrapped ↔
      (∀ inner, children ≠ [list inner]) ∧ ∀ child ∈ children, child.Unwrapped := by
  simp only [unwrapped_iff, forall_at?_list_iff, ne_eq, list.injEq]

-- Only lists are simplified to lists, so no new wrapper comes about.
theorem map_simplify_ne_wrapper {children : List (Nested α)}
    (h : ∀ inner, children ≠ [list inner]) (inner : List (Nested α)) :
    children.map simplify ≠ [list inner] := by
  intro heq
  obtain ⟨child, rfl, hchild⟩ := List.map_eq_singleton_iff.mp heq
  cases child with
  | leaf value =>
      rw [simplify_leaf] at hchild
      cases hchild
  | list inner => exact h inner rfl

theorem unwrapped_simplify (nested : Nested α) : nested.simplify.Unwrapped := by
  induction nested with
  | leaf value =>
      rw [simplify_leaf]
      exact unwrapped_leaf value
  | list children ih =>
      rcases simplify_list children with ⟨inner, rfl, heq⟩ | ⟨hself, heq⟩
      · rw [heq]
        exact ih _ (List.mem_singleton_self _)
      · rw [heq, unwrapped_list_iff]
        exact ⟨map_simplify_ne_wrapper hself, List.forall_mem_map.mpr ih⟩

theorem simplify_of_unwrapped (h : nested.Unwrapped) :
    nested.simplify = nested := by
  induction nested with
  | leaf value => exact simplify_leaf value
  | list children ih =>
      obtain ⟨hself, hchildren⟩ := unwrapped_list_iff.mp h
      rcases simplify_list children with ⟨inner, rfl, -⟩ | ⟨-, heq⟩
      · exact absurd rfl (hself inner)
      · rw [heq, List.map_congr_left fun child hchild => ih child hchild (hchildren child hchild),
          List.map_id']

theorem simplify_eq_self_iff : nested.simplify = nested ↔ nested.Unwrapped :=
  ⟨fun h => h ▸ unwrapped_simplify nested, simplify_of_unwrapped⟩

theorem depth_simplify_le (nested : Nested α) : nested.simplify.depth ≤ nested.depth := by
  induction nested with
  | leaf value => exact Nat.le_of_eq (congrArg depth (simplify_leaf value))
  | list children ih =>
      rcases simplify_list children with ⟨inner, rfl, heq⟩ | ⟨-, heq⟩
      · have hmem : list inner ∈ [list inner] := List.mem_singleton_self _
        rw [heq]
        exact Nat.le_of_lt (Nat.lt_of_le_of_lt (ih _ hmem) (depth_lt_of_mem hmem))
      · have hone := one_le_depth_list children
        have hle : (list (children.map simplify)).depth ≤ (list children).depth - 1 + 1 := by
          rw [depth_list_le_iff]
          intro simplified hsimplified
          obtain ⟨child, hchild, rfl⟩ := List.mem_map.mp hsimplified
          have hlt := depth_lt_of_mem hchild
          have hchild := ih child hchild
          omega
        rw [heq]
        omega

end Simplify

end Nested

namespace Ragged

variable {ragged reshaped : Ragged} {shape : Shape}

theorem withShape_of_eq (h : shape = ragged.shape) : { ragged with shape := shape } = ragged := by
  rw [h]

theorem simplify_eq_self_iff : ragged.simplify = ragged ↔ ragged.shape.Unwrapped := by
  rw [← Nested.simplify_eq_self_iff]
  exact ⟨congrArg shape, withShape_of_eq⟩

-- A rewriting of the nesting that keeps its leaves keeps how it reads the row.
theorem Renested.depthFirst_iff {row : List Nat} (h : Renested ragged reshaped) :
    reshaped.shape.DepthFirst row ↔ ragged.shape.DepthFirst row := by
  rw [Nested.depthFirst_iff, Nested.depthFirst_iff, h.leaves]

-- What a port may do to the nesting of a value. Flattening takes one level away where there
-- are two or more, and is nothing otherwise. Simplifying leaves no list whose only child is a
-- list, changes nothing where there is none, and never adds a level. Grafting puts a list of
-- the leaf alone in the place of each leaf. None of the three touches the row or the order in
-- which the nesting reads it, and flattening undoes the grafting of a list of leaves.
theorem reshaping_keeps_promises (ragged : Ragged) :
    (ragged.depth ≤ 1 → ragged.flatten = ragged) ∧
    (2 ≤ ragged.depth → ragged.flatten.depth = ragged.depth - 1) ∧
    (∀ path inner, ragged.simplify.shape.at? path ≠ some (.list [.list inner])) ∧
    (ragged.simplify = ragged ↔
      ∀ path inner, ragged.shape.at? path ≠ some (.list [.list inner])) ∧
    ragged.simplify.simplify = ragged.simplify ∧
    ragged.simplify.depth ≤ ragged.depth ∧
    ragged.shape.Replaced (ragged.shape.leaves.map fun position => .list [.leaf position])
      ragged.graft.shape ∧
    (∀ reshaped ∈ [ragged.flatten, ragged.simplify, ragged.graft],
      reshaped.flat = ragged.flat ∧
        ∀ row, reshaped.shape.DepthFirst row ↔ ragged.shape.DepthFirst row) ∧
    ∀ positions, ragged.shape = .ofList positions → ragged.graft.flatten = ragged := by
  refine ⟨fun h => withShape_of_eq (Nested.flatten_of_depth_le_one h), Nested.depth_flatten,
    Nested.unwrapped_simplify ragged.shape, simplify_eq_self_iff, ?_,
    Nested.depth_simplify_le ragged.shape, Nested.replaced_bind _ ragged.shape, ?_, ?_⟩
  · exact simplify_eq_self_iff.mpr (Nested.unwrapped_simplify ragged.shape)
  · have hrenested : ∀ reshaped ∈ [ragged.flatten, ragged.simplify, ragged.graft],
        Renested ragged reshaped := by
      simp only [List.forall_mem_cons, List.not_mem_nil, false_implies, implies_true, and_true]
      exact ⟨⟨rfl, Nested.leaves_flatten _⟩, ⟨rfl, Nested.leaves_simplify _⟩,
        ⟨rfl, Nested.leaves_graft _⟩⟩
    intro reshaped hmem
    exact ⟨(hrenested reshaped hmem).flat, fun row => (hrenested reshaped hmem).depthFirst_iff⟩
  · intro positions hshape
    have hundone : ragged.shape.graft.flatten = ragged.shape := by
      rw [hshape, Nested.flatten_graft_ofList]
    exact withShape_of_eq hundone

-- A group in a group of its own, beside an empty one.
private def crated : Ragged :=
  ⟨[.text "a", .null], .list [.list [.list [.leaf 0, .leaf 1]], .list []]⟩

theorem crated_keeps_promises :
    2 ≤ crated.depth ∧ crated.flatten.depth = crated.depth - 1 ∧
    (∀ path inner, crated.simplify.shape.at? path ≠ some (.list [.list inner])) ∧
    crated.simplify ≠ crated ∧ crated.shape.DepthFirst [0, 1] ∧
    crated.graft.shape.DepthFirst [0, 1] ∧
    crated.shape.Replaced [.list [.leaf 0], .list [.leaf 1]] crated.graft.shape ∧
    (Ragged.ofList crated.flat).depth ≤ 1 ∧
    (Ragged.ofList crated.flat).flatten = .ofList crated.flat ∧
    (Ragged.ofList crated.flat).graft.flatten = .ofList crated.flat := by
  have hdeep : 2 ≤ crated.depth := by decide
  have hshallow : (Ragged.ofList crated.flat).depth ≤ 1 := by decide
  have hrow : crated.shape.DepthFirst [0, 1] := Nested.depthFirst_iff.mpr rfl
  obtain ⟨-, hflatten, hunwrapped, hself, -, -, hgraft, hkeep, -⟩ :=
    reshaping_keeps_promises crated
  obtain ⟨hsame, -, -, -, -, -, -, -, hundone⟩ := reshaping_keeps_promises (.ofList crated.flat)
  have hwrapper : crated.simplify ≠ crated := fun heq => hself.mp heq [0] [.leaf 0, .leaf 1] rfl
  exact ⟨hdeep, hflatten hdeep, hunwrapped, hwrapper, hrow,
    ((hkeep crated.graft (by simp)).2 _).mpr hrow, hgraft, hshallow, hsame hshallow, hundone _ rfl⟩

end Ragged

end Dataflow
