import Dataflow.Flags
import Dataflow.Properties

namespace Dataflow

-- What the function of an output is given: for each of its inputs the values of all
-- producers, and the properties of its node.
structure EvalInputs where
  values : List (List Ragged)
  properties : Properties

namespace EvalInputs

-- The values of one input, none for an input that is not there.
def all (inputs : EvalInputs) (slot : Nat) : List Ragged :=
  inputs.values[slot]?.getD []

-- The value of the first producer.
def get (inputs : EvalInputs) (slot : Nat) : Except EvalError Ragged :=
  match inputs.all slot with
  | value :: _ => .ok value
  | [] => .error (.noInput slot)

end EvalInputs

-- How one output of a node is computed: from which inputs, in which order, and by what
-- function.
structure EvalUnit where
  output : Nat
  inputs : List Nat
  run : EvalInputs → Except EvalError Ragged

-- A port to be made.
structure PortSpec where
  name : String
  type : ValueType
  flags : Flags
  default : Option (Nested Value)
deriving DecidableEq

-- A node to be made.
structure Template where
  tag : String
  inputs : List PortSpec
  outputs : List PortSpec
  units : List EvalUnit
  properties : Properties

namespace Template

-- The first fault among the units: one that computes an output that is not there or
-- computed already, or reads an input that is not there. `seen` holds the outputs of
-- the units before.
def firstFault (inputs outputs : Nat) (seen : List Nat) : List EvalUnit → Option TemplateFault
  | [] => none
  | unit :: rest =>
      if outputs ≤ unit.output then some (.missingOutput unit.output)
      else if unit.output ∈ seen then some (.twoUnits unit.output)
      else
        match unit.inputs.find? fun input => inputs ≤ input with
        | some input => some (.missingInput input)
        | none => firstFault inputs outputs (unit.output :: seen) rest

def fault? (template : Template) : Option TemplateFault :=
  firstFault template.inputs.length template.outputs.length [] template.units

end Template

end Dataflow
