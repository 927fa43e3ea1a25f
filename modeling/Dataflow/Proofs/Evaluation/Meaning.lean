import Dataflow.Evaluation.Reading

namespace Dataflow.Graph

-- What a graph means, apart from anything that was computed before. Nothing is kept
-- here, and there is no limit on how far back a value comes from.

section Denote

variable (graph : Graph) (value : NodeId → Nat → Except EvalError Ragged)

-- What arrives along a chain of aliases, given what every output computes.
def along (chain : Chain) : Except EvalError Ragged :=
  match graph.locate chain.last with
  | .error e => .error e
  | .ok (node, output) => (value node output).map (graph.applyFlags chain.outer)

-- What an edge brings. A failure at its far end is reported with the node there.
def brought (source : PortId) : Except EvalError Ragged :=
  match graph.aliasChain source with
  | .error e => .error e
  | .ok chain =>
      match graph.along value chain with
      | .ok result => .ok result
      | .error e => .error (.sourceFailed (graph.ownerUuid chain.last) e)

-- What an input receives: one value for each edge of the port at the end of its aliases,
-- in order, or the literal of that port where it has no edges.
def received (input : PortId) : Except EvalError (List Ragged) :=
  match graph.inputChain input with
  | .error e => .error e
  | .ok chain =>
      match graph.port? chain.last with
      | none => .error (.invalidPortAlias input .targetGone)
      | some port =>
          let values :=
            if port.edges.isEmpty then .ok [graph.literal port]
            else (port.edges.filterMap graph.edge?).mapM fun edge => graph.brought value edge.source
          values.map (List.map (graph.applyFlags chain.ports))

-- What one input of a node receives.
def receivedAt (node : NodeId) (input : Nat) : Except EvalError (List Ragged) :=
  match graph.inputPort? node input with
  | some port => graph.received value port
  | none => .error (.nodeNotFound node)

-- What an output computes, given what the outputs that it reads compute.
def denote (node : NodeId) (output : Nat) : Except EvalError Ragged :=
  match graph.node? node with
  | none => .error (.noEvaluator output)
  | some found =>
      match found.unit? output with
      | none => .error (.noEvaluator output)
      | some unit =>
          match unit.inputs.mapM (graph.receivedAt value node) with
          | .error e => .error e
          | .ok values =>
              (unit.run ⟨values, found.properties⟩).map (graph.leave node unit.output)

end Denote

-- The result that an output computes by the recursion along what it reads.
inductive Means (graph : Graph) : NodeId → Nat → Except EvalError Ragged → Prop where
  | intro (value : NodeId → Nat → Except EvalError Ragged) {node : NodeId} {output : Nat}
      (h : ∀ source ∈ graph.sources node output, ∀ m k, graph.locate source = .ok (m, k) →
        Means graph m k (value m k)) :
      Means graph node output (graph.denote value node output)

-- The result that an output shows: what is computed at the end of its aliases, by way of
-- the ports on the walk.
inductive Shows (graph : Graph) (node : NodeId) (output : Nat) :
    Except EvalError Ragged → Prop where
  | missing {e : EvalError} (h : graph.outputOf node output = .error e) :
      Shows graph node output (.error e)
  | astray {port : PortId} {e : EvalError} (h : graph.outputOf node output = .ok port)
      (hc : graph.aliasChain port = .error e) : Shows graph node output (.error e)
  | computed {port : PortId} {chain : Chain} {m : NodeId} {k : Nat}
      {inner : Except EvalError Ragged}
      (h : graph.outputOf node output = .ok port) (hc : graph.aliasChain port = .ok chain)
      (hl : graph.locate chain.last = .ok (m, k)) (hm : graph.Means m k inner) :
      Shows graph node output (inner.map (graph.applyFlags chain.outer))

end Dataflow.Graph
