import Dataflow.Decimal.Layout
import Dataflow.Error

namespace Dataflow

-- How messages refer to things: by whatever name their reader knows.
structure Names where
  node : NodeId → String
  port : PortId → String
  uuid : Uuid → String

-- The names used where nobody gave any: kind and number.
def Names.plain : Names where
  node id := "NodeId(" ++ toString id.number ++ "v1)"
  port id := "PortId(" ++ toString id.number ++ "v1)"
  uuid := Uuid.toText

def Degeneracy.reason : Degeneracy → String
  | noOperand => "nothing to broadcast"
  | emptyOperand => "empty operand"
  | zeroDivisor => "division by zero"
  | zeroStep => "range step is zero"
  | longRange start stop step =>
      "range " ++ Layout.plain.writeFloat start ++ ".." ++ Layout.plain.writeFloat stop ++
        " by " ++ Layout.plain.writeFloat step ++ " is too long"
  | notFinite operation result => operation ++ " produced " ++ Layout.plain.writeFloat result

def AliasFault.reason : AliasFault → String
  | portGone => "port no longer exists"
  | targetGone => "alias target no longer exists"
  | endless => "alias chain does not terminate"

def EvalError.message (names : Names) : EvalError → String
  | shapeMismatch expected found =>
      "shape mismatch: expected " ++ toString expected ++ " values, found " ++ toString found
  | leafNotUnique leaf =>
      "compute error: structure leaf " ++ toString leaf ++ " does not address a unique value"
  | noInput slot => "compute error: input " ++ toString slot ++ " has no value"
  | notEvaluated output => "compute error: output " ++ toString output ++ " was not evaluated"
  | compute reason => "compute error: " ++ reason
  | degenerate cause => "degenerate input: " ++ cause.reason
  | typeMismatch expected got => "type error: expected " ++ expected.name ++ ", got " ++ got.name
  | invalidPortAlias port fault =>
      "invalid port alias on " ++ names.port port ++ ": " ++ fault.reason
  | sourceFailed node cause =>
      "upstream node " ++ names.uuid node ++ " failed: " ++ message names cause
  | noEvaluator output => "output " ++ toString output ++ " has no evaluation function"
  | depthExceeded limit => "evaluation depth limit of " ++ toString limit ++ " exceeded"
  | nodeNotFound node => "node not found: " ++ names.node node
  | outputOutOfRange node output =>
      "node " ++ names.node node ++ " has no output " ++ toString output

def ConnectionError.message (names : Names) : ConnectionError → String
  | portNotFound port => "port not found: " ++ names.port port
  | sameDirection direction => "both ports are " ++ direction.name ++ " ports"
  | selfLoop => "cannot connect a node to itself"
  | nestedScope => "cannot connect across nested scopes"
  | identityEdge => "source and destination are the same port"
  | typeMismatch source target =>
      "type mismatch: " ++ source.name ++ " cannot feed " ++ target.name
  | alreadyConnected => "ports are already connected"
  | cycle => "connection would create a cycle"

def TemplateFault.reason (names : Names) : TemplateFault → String
  | missingOutput output => "eval unit targets missing output " ++ toString output
  | twoUnits output => "output " ++ toString output ++ " has two eval units"
  | missingInput input => "eval unit reads missing input " ++ toString input
  | portCount property most =>
      "group property \"" ++ property ++ "\" must be a port count up to " ++ toString most
  | uuidTaken uuid => "uuid " ++ names.uuid uuid ++ " is already in use"
  | insideItself => "a node cannot be nested inside itself"

def GraphError.message (names : Names) : GraphError → String
  | nodeNotFound node => "node not found: " ++ names.node node
  | portNotFound port => "port not found: " ++ names.port port
  | directionMismatch expected got =>
      "expected an " ++ expected.name ++ " port, got " ++ got.name
  | invalidTemplate fault => "invalid node template: " ++ fault.reason names
  | unknownNodeType tag => "unknown node type: " ++ tag
  | aliasCycle port target =>
      "aliasing " ++ names.port port ++ " to " ++ names.port target ++
        " would create a dependency cycle"

end Dataflow
