import Dataflow.Id
import Dataflow.Uuid
import Dataflow.Value

namespace Dataflow

-- Inputs for which a numeric result is undefined.
inductive Degeneracy where
  | noOperand
  | emptyOperand
  | zeroDivisor
  | zeroStep
  | longRange (start stop step : Float)
  | notFinite (operation : String) (result : Float)
deriving DecidableEq

-- What is wrong with a chain of aliases.
inductive AliasFault where
  | portGone
  | targetGone
  | endless
deriving DecidableEq

-- Why an output has no value. `compute` carries the words of a node's own function.
inductive EvalError where
  | shapeMismatch (expected found : Nat)
  | leafNotUnique (leaf : Nat)
  | noInput (slot : Nat)
  | notEvaluated (output : Nat)
  | compute (reason : String)
  | degenerate (cause : Degeneracy)
  | typeMismatch (expected got : ValueType)
  | invalidPortAlias (port : PortId) (fault : AliasFault)
  | sourceFailed (node : Uuid) (cause : EvalError)
  | noEvaluator (output : Nat)
  | depthExceeded (limit : Nat)
  | nodeNotFound (node : NodeId)
  | outputOutOfRange (node : NodeId) (output : Nat)
deriving DecidableEq, Inhabited

-- The failure at the far end of a chain of failed sources.
def EvalError.rootCause : EvalError → EvalError
  | sourceFailed _ cause => rootCause cause
  | other => other

-- Why two ports may not be joined.
inductive ConnectionError where
  | portNotFound (port : PortId)
  | sameDirection (direction : Direction)
  | selfLoop
  | nestedScope
  | identityEdge
  | typeMismatch (source target : ValueType)
  | alreadyConnected
  | cycle
deriving DecidableEq

-- What keeps a template from becoming a node, or a node from being placed.
inductive TemplateFault where
  | missingOutput (output : Nat)
  | twoUnits (output : Nat)
  | missingInput (input : Nat)
  | portCount (property : String) (most : Nat)
  | uuidTaken (uuid : Uuid)
  | insideItself
deriving DecidableEq

-- Why an edit of the graph was refused.
inductive GraphError where
  | nodeNotFound (node : NodeId)
  | portNotFound (port : PortId)
  | directionMismatch (expected got : Direction)
  | invalidTemplate (fault : TemplateFault)
  | unknownNodeType (tag : String)
  | aliasCycle (port target : PortId)
deriving DecidableEq

end Dataflow
