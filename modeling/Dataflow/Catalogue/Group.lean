import Dataflow.Decimal.Binary
import Dataflow.NodeType

namespace Dataflow.Catalogue

def mostGroupPorts : Nat :=
  64

-- A whole number from zero up, however it is written.
def countOf? (value : Nested Value) : Option Nat :=
  match value with
  | .leaf (.int i) => i.toInt.toNat?
  | .leaf value => (value.toFloat?.bind fun x => (Binary.ofFloat x).toInt?).bind Int.toNat?
  | .list _ => none

-- How many ports a group has on one side: as its property says, or one.
def portCount (properties : Properties) (key : String) : Except GraphError Nat :=
  match properties.find? key with
  | none => .ok 1
  | some value =>
      match countOf? value with
      | some count =>
          if count ≤ mostGroupPorts then .ok count
          else .error (.invalidTemplate (.portCount key mostGroupPorts))
      | none => .error (.invalidTemplate (.portCount key mostGroupPorts))

def numberedPorts (name : String) (count : Nat) : List PortSpec :=
  (List.range count).map fun i => .plain (name ++ toString i) .any

-- A container computes nothing: its outputs stand for outputs of the nodes inside it,
-- and their inputs for inputs of its own.
def groupTemplate (properties : Properties) : Except GraphError Template := do
  let inputs ← portCount properties "inputs"
  let outputs ← portCount properties "outputs"
  pure
    { tag := "group"
      inputs := numberedPorts "in" inputs
      outputs := numberedPorts "out" outputs
      units := []
      properties := .ofList
        [("inputs", .leaf (.int (Int64.ofNat inputs))),
          ("outputs", .leaf (.int (Int64.ofNat outputs)))] }

def group : NodeType :=
  .describe "group" "Group" "Structure" "Sub-graph container whose ports forward to nested nodes"
    groupTemplate

end Dataflow.Catalogue
