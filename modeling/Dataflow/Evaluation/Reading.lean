import Dataflow.Graph.Alias

namespace Dataflow.Graph

-- A value on its way back along ports, the last of them first: each changes the
-- nesting as its flags say.
def applyFlags (graph : Graph) (ports : List PortId) (value : Ragged) : Ragged :=
  ports.foldr
    (fun id value =>
      match graph.port? id with
      | some port => port.flags.apply value
      | none => value)
    value

-- The output that a port belongs to, as its node and number.
def locate (graph : Graph) (port : PortId) : Except EvalError (NodeId × Nat) :=
  match graph.port? port with
  | some found => .ok (found.node, found.index)
  | none => .error (.invalidPortAlias port .portGone)

def unit? (graph : Graph) (node : NodeId) (output : Nat) : Option EvalUnit :=
  (graph.node? node).bind fun found => found.unit? output

def ownSlot? (graph : Graph) (node : NodeId) (output : Nat) : Option Slot :=
  (graph.node? node).bind fun found => found.slots[output]?

-- The outputs that compute what an input reads. A walk that fails names none of them.
def producers (graph : Graph) (input : PortId) : List PortId :=
  match graph.inputChain input with
  | .error _ => []
  | .ok chain =>
      match graph.port? chain.last with
      | none => []
      | some port =>
          (port.edges.filterMap graph.edge?).filterMap fun edge =>
            (graph.aliasEnd edge.source).toOption

-- The outputs that a unit reads, in the order of its inputs.
def sourcesOf (graph : Graph) (node : NodeId) (unit : EvalUnit) : List PortId :=
  (unit.inputs.filterMap fun input => graph.inputPort? node input).flatMap graph.producers

-- What an output reads, none if nothing computes it.
def sources (graph : Graph) (node : NodeId) (output : Nat) : List PortId :=
  match graph.unit? node output with
  | some unit => graph.sourcesOf node unit
  | none => []

-- The settled value at the end of a walk, or the error that it failed with.
def readOutput (graph : Graph) (chain : Chain) : Except EvalError Ragged :=
  match graph.locate chain.last with
  | .error e => .error e
  | .ok (node, output) =>
      match graph.ownSlot? node output with
      | none => .error (.outputOutOfRange node output)
      | some slot =>
          match slot.state, slot.cache with
          | .fresh, some value => .ok (graph.applyFlags chain.outer value)
          | _, _ => .error (slot.error.getD (.notEvaluated output))

-- The name of the node that a port belongs to.
def ownerUuid (graph : Graph) (port : PortId) : Uuid :=
  (((graph.port? port).bind fun found => graph.node? found.node).map (·.uuid)).getD default

-- What an input reads from one source. A failure there is reported with the node that
-- computes the source.
def readSource (graph : Graph) (source : PortId) : Except EvalError Ragged :=
  match graph.aliasChain source with
  | .error e => .error e
  | .ok chain =>
      match graph.readOutput chain with
      | .ok value => .ok value
      | .error e => .error (.sourceFailed (graph.ownerUuid chain.last) e)

-- What stands in for edges: the property named like the port, else the port's own
-- default, else nothing.
def literal (graph : Graph) (port : Port) : Ragged :=
  match ((graph.node? port.node).bind fun node => node.properties.find? port.name).or
      port.default with
  | some value => .ofNested value
  | none => .empty

-- What a port without an alias reads: one value for each edge, or its literal.
def readPort (graph : Graph) (port : Port) : Except EvalError (List Ragged) :=
  if port.edges.isEmpty then .ok [graph.literal port]
  else (port.edges.filterMap graph.edge?).mapM fun edge => graph.readSource edge.source

-- The values that an input reads once their producers have settled. Edges win over
-- aliases, and aliases over literals.
def readInput (graph : Graph) (input : PortId) : Except EvalError (List Ragged) :=
  match graph.inputChain input with
  | .error e => .error e
  | .ok chain =>
      match graph.port? chain.last with
      | none => .error (.invalidPortAlias input .targetGone)
      | some port => (graph.readPort port).map fun values =>
          values.map (graph.applyFlags chain.ports)

-- The values that one input of a node reads.
def readAt (graph : Graph) (node : NodeId) (input : Nat) : Except EvalError (List Ragged) :=
  match graph.inputPort? node input with
  | some port => graph.readInput port
  | none => .error (.nodeNotFound node)

-- All that the function of a unit is given.
def gather (graph : Graph) (node : NodeId) (unit : EvalUnit) : Except EvalError EvalInputs := do
  let values ← unit.inputs.mapM (graph.readAt node)
  match graph.node? node with
  | some found => .ok ⟨values, found.properties⟩
  | none => .error (.nodeNotFound node)

-- A result as it leaves its node: by way of the output's own flags.
def leave (graph : Graph) (node : NodeId) (output : Nat) (value : Ragged) : Ragged :=
  graph.applyFlags (graph.outputPort? node output).toList value

end Dataflow.Graph
