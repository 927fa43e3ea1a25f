import Dataflow.Proofs.Reachable
import Dataflow.Proofs.Registry

namespace Dataflow

-- A failure that names no node and no port by where a graph keeps it.
def EvalError.Unkeyed : EvalError → Prop
  | .invalidPortAlias _ _ | .nodeNotFound _ | .outputOutOfRange _ _ => False
  | .sourceFailed _ cause => cause.Unkeyed
  | _ => True

-- Work that fails in no other way.
def Unkeyed {α : Type} (result : Except EvalError α) : Prop :=
  ∀ e, result = .error e → e.Unkeyed

namespace Unkeyed

variable {α β : Type}

theorem ok (a : α) : Unkeyed (.ok a) := by
  intro e h
  cases h

theorem error {e : EvalError} (h : e.Unkeyed) : Unkeyed (.error e : Except EvalError α) := by
  intro e' h'
  exact Except.error.inj h' ▸ h

theorem bind {a : Except EvalError α} {f : α → Except EvalError β} (ha : Unkeyed a)
    (hf : ∀ x, Unkeyed (f x)) : Unkeyed (a >>= f) := by
  cases a with
  | error e => exact error (ha e rfl)
  | ok x => exact hf x

theorem mapM {f : α → Except EvalError β} (hf : ∀ x, Unkeyed (f x)) (items : List α) :
    Unkeyed (items.mapM f) := by
  induction items with
  | nil => exact ok []
  | cons x rest ih =>
      rw [List.mapM_cons]
      exact bind (hf x) fun y => bind ih fun ys => ok _

theorem foldlM {f : β → α → Except EvalError β} (hf : ∀ b x, Unkeyed (f b x)) (b : β)
    (items : List α) : Unkeyed (items.foldlM f b) := by
  induction items generalizing b with
  | nil => exact ok b
  | cons x rest ih =>
      rw [List.foldlM_cons]
      exact bind (hf b x) ih

end Unkeyed

section Reshaping

theorem unkeyed_get (inputs : EvalInputs) (slot : Nat) : Unkeyed (inputs.get slot) := by
  rw [EvalInputs.get]
  split
  · exact .ok _
  · exact .error trivial

theorem unkeyed_ofParts (flat : List Value) (shape : Shape) :
    Unkeyed (Ragged.ofParts flat shape) := by
  simp only [Ragged.ofParts]
  split
  · split
    · exact .error trivial
    · exact .ok _
  · exact .error trivial

theorem unkeyed_ofOperands (operands : List Ragged) : Unkeyed (Broadcast.ofOperands operands) := by
  simp only [Broadcast.ofOperands]
  split
  · exact .error trivial
  · split
    · exact .error trivial
    · split
      · exact .error trivial
      · exact .ok _

theorem unkeyed_eachRow {α : Type} (broadcast : Broadcast)
    {f : Nat → List Value → Except EvalError α} (hf : ∀ i row, Unkeyed (f i row)) :
    Unkeyed (broadcast.eachRow f) := by
  rw [Broadcast.eachRow]
  exact .mapM (fun ⟨row, i⟩ => hf i row) _

theorem unkeyed_map (broadcast : Broadcast) {f : Nat → List Value → Except EvalError Value}
    (hf : ∀ i row, Unkeyed (f i row)) : Unkeyed (broadcast.map f) :=
  .bind (unkeyed_eachRow broadcast hf) fun _ => unkeyed_ofParts _ _

theorem unkeyed_expand (broadcast : Broadcast)
    {f : Nat → List Value → Except EvalError (List Value)} (hf : ∀ i row, Unkeyed (f i row)) : Unkeyed (broadcast.expand f) := by
  refine .bind (unkeyed_eachRow broadcast hf) fun groups => ?_
  simp only [Ragged.expand]
  split
  · exact .ok _
  · exact .error trivial

end Reshaping

namespace Catalogue

-- What the functions of the built-in kinds do: they hand a value on, work row by row with
-- one result or several, or make one result of each innermost group.
inductive Computes : (EvalInputs → Except EvalError Ragged) → Prop where
  | relay : Computes fun inputs => inputs.get 0
  | rows (slots : List Nat) {f : List Value → Except EvalError Value}
      (hf : ∀ row, Unkeyed (f row)) :
      Computes fun inputs => do (← broadcast inputs slots).map fun _ row => f row
  | spread (slots : List Nat) {f : List Value → Except EvalError (List Value)}
      (hf : ∀ row, Unkeyed (f row)) :
      Computes fun inputs => do (← broadcast inputs slots).expand fun _ row => f row
  | groups {f : List Value → Except EvalError Value} (hf : ∀ members, Unkeyed (f members)) :
      Computes fun inputs => do perGroup (← inputs.get 0) f

theorem unkeyed_broadcast (inputs : EvalInputs) (slots : List Nat) :
    Unkeyed (broadcast inputs slots) :=
  .bind (.mapM (unkeyed_get inputs) slots) unkeyed_ofOperands

-- So none of them fails for what a graph calls a node or a port.
theorem Computes.unkeyed {run : EvalInputs → Except EvalError Ragged} (h : Computes run)
    (inputs : EvalInputs) : Unkeyed (run inputs) := by
  cases h with
  | relay => exact unkeyed_get inputs 0
  | rows slots hf => exact .bind (unkeyed_broadcast inputs slots) fun b => unkeyed_map b fun _ => hf
  | spread slots hf =>
      exact .bind (unkeyed_broadcast inputs slots) fun b => unkeyed_expand b fun _ => hf
  | groups hf =>
      exact .bind (unkeyed_get inputs 0) fun _ => .bind (.mapM (fun _ => hf _) _) fun _ =>
        unkeyed_ofParts _ _

theorem unkeyed_numberOf (value : Value) : Unkeyed (numberOf value) := by
  rw [numberOf]
  split
  · exact .ok _
  · exact .error trivial

theorem unkeyed_numbersOf (row : List Value) : Unkeyed (numbersOf row) :=
  .mapM unkeyed_numberOf row

theorem unkeyed_finite (operation : String) (x : Float) : Unkeyed (finite operation x) := by
  rw [finite]
  split
  · exact .ok _
  · exact .error trivial

theorem unkeyed_binaryRow (operation : String) {f : Float → Float → Except EvalError Float}
    (hf : ∀ a b, Unkeyed (f a b)) (row : List Value) : Unkeyed (binaryRow operation f row) := by
  refine .bind (unkeyed_numbersOf row) fun numbers => ?_
  split
  · exact .bind (hf _ _) (unkeyed_finite operation)
  · exact .error trivial

theorem unkeyed_quotient (a b : Float) : Unkeyed (quotient a b) := by
  rw [quotient]
  split
  · exact .error trivial
  · exact .ok _

theorem unkeyed_pointRow (row : List Value) : Unkeyed (pointRow row) := by
  refine .bind (unkeyed_numbersOf row) fun numbers => ?_
  split
  · exact .ok _
  · exact .error trivial

theorem unkeyed_rangeRow (start stop step : Float) : Unkeyed (rangeRow start stop step) := by
  rw [rangeRow]
  split
  · exact .error trivial
  · split
    · exact .error trivial
    · split
      · exact .error trivial
      · exact .ok _

theorem unkeyed_total (members : List Value) : Unkeyed (total members) :=
  .bind (.foldlM (fun _ member => .bind (unkeyed_numberOf member) fun _ => .ok _) _ members)
    (unkeyed_finite "sum")

theorem Computes.of_binary (operation : String) (default : Float)
    {f : Float → Float → Except EvalError Float} (hf : ∀ a b, Unkeyed (f a b)) (given : Properties)
    {template : Template} (h : binary operation default f given = .ok template) {unit : EvalUnit}
    (hu : unit ∈ template.units) : Computes unit.run := by
  obtain rfl := Except.ok.inj h
  obtain rfl := List.mem_singleton.mp hu
  exact .rows [0, 1] (unkeyed_binaryRow operation hf)

-- A kind that is described by a template computes what the template does.
theorem exists_of_describe {id name category description : String}
    {template : Properties → Except GraphError Template} {given : Properties} {built : Template}
    (h : (NodeType.describe id name category description template).build given = .ok built) :
    ∃ base, template given = .ok base ∧ built.units = base.units := by
  have hbuild : (template given).map (fun base => base.configured id given) = .ok built := h
  cases hbase : template given with
  | error e =>
      rw [hbase] at hbuild
      cases hbuild
  | ok base =>
      rw [hbase] at hbuild
      obtain rfl := Except.ok.inj hbuild
      exact ⟨base, rfl, rfl⟩

theorem computes_of_build {type : NodeType} (htype : type ∈ all) {given : Properties}
    {built : Template} (h : type.build given = .ok built) {unit : EvalUnit}
    (hu : unit ∈ built.units) : Computes unit.run := by
  have hsum : ∀ f : Float → Float → Float, ∀ a b, Unkeyed (.ok (f a b) : Except EvalError Float) :=
    fun f a b => .ok _
  simp only [all, List.mem_cons, List.not_mem_nil, or_false] at htype
  rcases htype with rfl | rfl | rfl | rfl | rfl | rfl | rfl | rfl | rfl | rfl <;>
    obtain ⟨base, hbase, hunits⟩ := exists_of_describe h <;> rw [hunits] at hu
  case inr.inr.inl => exact .of_binary "add" 0 (hsum _) given hbase hu
  case inr.inr.inr.inl => exact .of_binary "subtract" 0 (hsum _) given hbase hu
  case inr.inr.inr.inr.inl => exact .of_binary "multiply" 1 (hsum _) given hbase hu
  case inr.inr.inr.inr.inr.inl => exact .of_binary "divide" 1 unkeyed_quotient given hbase hu
  case inr.inr.inr.inr.inr.inr.inr.inr.inr =>
    rw [groupTemplate] at hbase
    obtain ⟨inputs, -, hbase⟩ := Graph.exists_of_bind_eq_ok hbase
    obtain ⟨outputs, -, hbase⟩ := Graph.exists_of_bind_eq_ok hbase
    obtain rfl := Except.ok.inj hbase
    cases hu
  all_goals
    obtain rfl := Except.ok.inj hbase
    obtain rfl := List.mem_singleton.mp hu
  · exact .relay
  · refine .spread [0, 1, 2] fun row => .bind (unkeyed_numbersOf row) fun numbers => ?_
    split
    · exact unkeyed_rangeRow _ _ _
    · exact .error trivial
  · exact .rows [0, 1, 2] unkeyed_pointRow
  · exact .groups fun _ => .ok _
  · exact .groups unkeyed_total

end Catalogue

theorem Registry.computes_of_create {tag : String} {given : Properties} {template : Template}
    (h : core.create tag given = .ok template) {unit : EvalUnit} (hu : unit ∈ template.units) :
    Catalogue.Computes unit.run := by
  obtain ⟨type, htype, -, built, hbuilt, rfl⟩ := create_core_eq_ok_iff.mp h
  exact Catalogue.computes_of_build htype hbuilt hu

end Dataflow
