import Dataflow.Proofs.Ragged.Matched
import Dataflow.Proofs.Ragged.Nesting

namespace Dataflow

namespace Ragged

theorem map_range'_getElem? (before group after : List Value) :
    ((List.range' before.length group.length).map fun i =>
      (before ++ (group ++ after))[i]?.getD .null) = group := by
  apply List.ext_getElem
  · simp
  · intro i _ hi
    have hat : (before ++ (group ++ after))[before.length + i]? = some group[i] := by
      rw [List.getElem?_append_right (Nat.le_add_right _ _), Nat.add_sub_cancel_left,
        List.getElem?_append_left hi, List.getElem?_eq_getElem hi]
    simp [hat]

-- The groups of positions, read in the row that they count through, are those of the values.
theorem map_blocksFrom (before : List Value) (groups : List (List Value)) :
    ((blocksFrom before.length groups).map fun block =>
      block.map fun i => (before ++ groups.flatten)[i]?.getD .null) = groups.map .ofList := by
  induction groups generalizing before with
  | nil => rfl
  | cons group rest ih =>
      have hrest := ih (before ++ group)
      rw [List.length_append, List.append_assoc] at hrest
      rw [blocksFrom, List.map_cons, List.flatten_cons, List.map_cons, hrest, Nested.map_ofList,
        map_range'_getElem?]

-- In an expansion the leaves, in order, have become the groups, and the row is all of them.
theorem replaced_of_expand {shape : Shape} {groups : List (List Value)} {ragged : Ragged}
    (h : expand shape groups = .ok ragged) :
    ragged.flat = groups.flatten ∧ shape.Replaced (groups.map .ofList) ragged.toNested := by
  obtain ⟨hlength, rfl⟩ := expand_eq_ok_iff.mp h
  refine ⟨rfl, ?_⟩
  have hleaves : shape.leaves.length = (groups.map Nested.ofList).length := by
    rw [List.length_map, hlength]
  have hread : ∀ k : Nat, ((blocksFrom 0 groups)[k]?.getD (.list [])).map
      (fun i => groups.flatten[i]?.getD Value.null) =
        (groups.map Nested.ofList)[k]?.getD (.list []) := by
    intro k
    have hblocks := map_blocksFrom [] groups
    rw [← hblocks, List.getElem?_map]
    cases (blocksFrom 0 groups)[k]? <;> rfl
  simp only [toNested, Nested.map_bind, List.getElem?_toArray, hread]
  exact Nested.replaced_numbered hleaves _

theorem blocksFrom_singletons (start : Nat) (values : List Value) :
    blocksFrom start (values.map fun value => [value]) =
      (List.range' start values.length).map fun k => .list [.leaf k] := by
  induction values generalizing start with
  | nil => rfl
  | cons value rest ih =>
      rw [List.map_cons, blocksFrom, ih]
      rfl

-- To expand by groups of one is to graft.
theorem expand_singletons {shape : Shape} {size : Nat} (hshape : shape.leaves = List.range size)
    (values : List Value) :
    expand shape (values.map fun value => [value]) = (ofParts values shape).map graft := by
  by_cases hlength : size = values.length
  · subst hlength
    have hparts : ofParts values shape = .ok ⟨values, shape⟩ := ofParts_of_leaves hshape
    have hcount : shape.leafCount = (values.map fun value => [value]).length := by
      rw [Nested.leafCount_eq, hshape, List.length_range, List.length_map]
    have hflat : (values.map fun value => [value]).flatten = values := by
      rw [← List.flatMap_def, List.flatMap_singleton']
    have hblocks : ∀ k ∈ shape.leaves,
        (blocksFrom 0 (values.map fun value => [value]))[k]?.getD (Nested.list []) =
          Nested.list [.leaf k] := by
      intro k hk
      rw [hshape, List.mem_range] at hk
      simp [blocksFrom_singletons, hk]
    simp only [hparts, expand, if_pos hcount, hflat, Nested.numbered_eq rfl hshape,
      List.getElem?_toArray, Nested.bind_congr hblocks]
    rfl
  · have hcount : ¬shape.leafCount = (values.map fun value => [value]).length := by
      rwa [Nested.leafCount_eq, hshape, List.length_range, List.length_map]
    have hleaves : ¬shape.leaves.length = values.length := by
      rwa [hshape, List.length_range]
    simp only [expand, if_neg hcount, ofParts, if_neg hleaves]
    rw [Nested.leafCount_eq, List.length_map]
    rfl

end Ragged

namespace Broadcast

section Singly

variable {m : Type → Type}

-- A group of one for each row.
def singly [Functor m] (f : Nat → List Value → m Value) (i : Nat) (row : List Value) :
    m (List Value) :=
  (fun value => [value]) <$> f i row

theorem mapM_map [Monad m] [LawfulMonad m] {α β γ : Type} (g : β → γ) (f : α → m β)
    (items : List α) : (items.mapM fun item => g <$> f item) = List.map g <$> items.mapM f := by
  induction items with
  | nil => simp
  | cons item rest ih => simp [List.mapM_cons, ih]

variable [Monad m] [MonadLiftT (Except EvalError) m]

-- The work on the rows for groups, with whatever else the row function does.
def expandIn (broadcast : Broadcast) (f : Nat → List Value → m (List Value)) : m Ragged := do
  let groups ← broadcast.rows.zipIdx.mapM fun (row, i) => f i row
  liftM (Ragged.expand broadcast.shape groups)

theorem expandIn_eq_expand (broadcast : Broadcast)
    (f : Nat → List Value → Except EvalError (List Value)) :
    broadcast.expandIn f = broadcast.expand f := rfl

-- Whatever the row function does besides, and wherever it fails, groups of one come to the
-- same as single values and a graft.
theorem expandIn_singly [LawfulMonad m] [LawfulMonadLiftT (Except EvalError) m]
    {broadcast : Broadcast}
    (hshape : broadcast.shape.leaves = List.range broadcast.length)
    (f : Nat → List Value → m Value) :
    broadcast.expandIn (singly f) = Ragged.graft <$> broadcast.mapIn f := by
  have hrows : (broadcast.rows.zipIdx.mapM fun (row, i) => singly f i row) =
      List.map (fun value => [value]) <$> broadcast.rows.zipIdx.mapM fun (row, i) => f i row :=
    mapM_map _ _ _
  have hexpand : ∀ results : List Value,
      Ragged.expand broadcast.shape (results.map fun value => [value]) =
        Ragged.graft <$> Ragged.ofParts results broadcast.shape :=
    Ragged.expand_singletons hshape
  rw [expandIn, mapIn, hrows, bind_map_left, map_bind]
  simp only [hexpand, liftM_map]

end Singly

section Agree

variable {operands : List Ragged} {broadcast : Broadcast}
  (hc : ∀ operand ∈ operands, operand.Canonical) (h : ofOperands operands = .ok broadcast)

include hc h

-- Where no row fails, there is a group for each of them.
theorem exists_expand {f : Nat → List Value → Except EvalError (List Value)}
    (hf : ∀ call ∈ broadcast.rows.zipIdx, ∃ values, f call.2 call.1 = .ok values) :
    ∃ groups ragged, broadcast.expand f = .ok ragged ∧
      List.Forall₂ (fun (row, i) values => f i row = .ok values) broadcast.rows.zipIdx groups ∧
      ragged.flat = groups.flatten ∧
      broadcast.shape.Replaced (groups.map .ofList) ragged.toNested := by
  cases hrows : broadcast.eachRow f with
  | error e =>
      obtain ⟨call, hcall, he⟩ := exists_of_mapM_error hrows
      obtain ⟨values, hvalues⟩ := hf call hcall
      cases hvalues.symm.trans he
  | ok groups =>
      have hlength : broadcast.shape.leaves.length = groups.length := by
        rw [leaves_shape hc h, List.length_range, length_of_eachRow hrows]
      obtain ⟨ragged, hexpand⟩ := Ragged.exists_expand hlength
      refine ⟨groups, ragged, ?_, forall₂_of_mapM hrows, Ragged.replaced_of_expand hexpand⟩
      rw [expand, hrows]
      exact hexpand

-- A row function for single values, made to answer groups of one, is called on the same
-- rows, and the answer is that for single values, grafted, or the same error. Where a
-- function for groups has one for every row, they stand one level below the leaves of the
-- chosen nesting, in their order, and the row is made of them all.
theorem map_and_expand_agree :
    (∀ f : Nat → List Value → Except EvalError Value,
      broadcast.expand (singly f) = (broadcast.map f).map Ragged.graft ∧
      ∃ calls, Worked broadcast f (broadcast.map f) calls ∧
        (broadcast.mapIn (recorded f)).run.run [] = (broadcast.map f, calls) ∧
        (broadcast.expandIn (singly (recorded f))).run.run [] =
          (broadcast.expand (singly f), calls)) ∧
    ∀ f : Nat → List Value → Except EvalError (List Value),
      (∀ call ∈ broadcast.rows.zipIdx, ∃ values, f call.2 call.1 = .ok values) →
      ∃ groups ragged, broadcast.expand f = .ok ragged ∧
        List.Forall₂ (fun (row, i) values => f i row = .ok values) broadcast.rows.zipIdx groups ∧
        ragged.flat = groups.flatten ∧
        broadcast.shape.Replaced (groups.map .ofList) ragged.toNested := by
  have hshape := leaves_shape hc h
  refine ⟨fun f => ?_, fun f hf => exists_expand hc h hf⟩
  have hexpand : broadcast.expand (singly f) = (broadcast.map f).map Ragged.graft := by
    rw [← expandIn_eq_expand, expandIn_singly hshape, mapIn_eq_map]
    rfl
  obtain ⟨calls, hcalls, hworked⟩ := worked f hshape
  refine ⟨hexpand, calls, hworked, hcalls, ?_⟩
  rw [expandIn_singly hshape, ExceptT.run_map, StateT.run_map, hcalls, hexpand]
  rfl

end Agree

-- Two rows, each of them a group in the nesting of the first operand.
private def paired : List Ragged :=
  [⟨[.text "a", .text "b"], .list [.list [.leaf 0], .list [.leaf 1]]⟩, .scalar .null]

-- The first row makes nothing, the second one makes two values.
theorem paired_expanded : (∀ operand ∈ paired, operand.Canonical) ∧
    ∃ broadcast, ofOperands paired = .ok broadcast ∧
      ∃ ragged, (broadcast.expand fun i row => .ok (if i = 0 then [] else row)) = .ok ragged ∧
        ragged.flat = [.text "b", .null] ∧
        broadcast.shape.Replaced [.list [], .list [.leaf (.text "b"), .leaf .null]]
          ragged.toNested := by
  have hc : ∀ operand ∈ paired, operand.Canonical := by decide
  refine ⟨hc, _, rfl, ?_⟩
  obtain ⟨-, hexpand⟩ := map_and_expand_agree hc rfl
  obtain ⟨groups, ragged, hragged, hgroups, hflat, hreplaced⟩ :=
    hexpand (fun i row => .ok (if i = 0 then [] else row)) fun _ _ => ⟨_, rfl⟩
  obtain rfl : groups = [[], [.text "b", .null]] := by
    change List.Forall₂ _
      [([Value.text "a", .null], 0), ([Value.text "b", .null], 1)] groups at hgroups
    simpa [List.forall₂_cons_left_iff, eq_comm] using hgroups
  exact ⟨ragged, hragged, hflat, hreplaced⟩

end Broadcast

end Dataflow
