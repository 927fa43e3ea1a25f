import Dataflow.Graph

namespace Dataflow

-- A walk along aliases: the ports passed on the way, and the port where it ends.
structure Chain where
  outer : List PortId
  last : PortId
deriving DecidableEq

namespace Chain

def ports (chain : Chain) : List PortId :=
  chain.outer ++ [chain.last]

end Chain

namespace Graph

-- From a port along its aliases, up to a port that stands for no other or where the
-- walk shall stop. `hops` is how many aliases may still be followed.
def walkAliases (graph : Graph) (stop : Port → Bool) : Nat → PortId → Except AliasFault Chain
  | hops, current =>
      match graph.port? current with
      | none => .error .targetGone
      | some port =>
          if stop port then .ok ⟨[], current⟩
          else
            match port.aliasOf, hops with
            | none, _ => .ok ⟨[], current⟩
            | some _, 0 => .error .endless
            | some target, hops + 1 =>
                match walkAliases graph stop hops target with
                | .ok chain => .ok { chain with outer := current :: chain.outer }
                | .error fault => .error fault

def chainFrom (graph : Graph) (stop : Port → Bool) (start : PortId) : Except EvalError Chain :=
  match graph.walkAliases stop graph.settings.maxAliasHops start with
  | .ok chain => .ok chain
  | .error fault => .error (.invalidPortAlias start fault)

-- The whole walk from a port.
def aliasChain (graph : Graph) (start : PortId) : Except EvalError Chain :=
  graph.chainFrom (fun _ => false) start

-- The walk from an input, up to the first port with edges of its own.
def inputChain (graph : Graph) (start : PortId) : Except EvalError Chain :=
  graph.chainFrom (fun port => !port.edges.isEmpty) start

-- The port at the end of the whole walk.
def aliasEnd (graph : Graph) (start : PortId) : Except EvalError PortId :=
  (graph.aliasChain start).map (·.last)

def outputOf (graph : Graph) (node : NodeId) (output : Nat) : Except EvalError PortId :=
  match graph.node? node with
  | none => .error (.nodeNotFound node)
  | some found =>
      match found.outputs[output]? with
      | some port => .ok port
      | none => .error (.outputOutOfRange node output)

-- The output that computes what an output shows.
def resolveOutput (graph : Graph) (node : NodeId) (output : Nat) : Except EvalError PortId :=
  (graph.outputOf node output).bind graph.aliasEnd

-- The slot behind an output.
def slot? (graph : Graph) (node : NodeId) (output : Nat) : Option Slot :=
  match graph.resolveOutput node output with
  | .error _ => none
  | .ok id =>
      (graph.port? id).bind fun port =>
        (graph.node? port.node).bind fun owner => owner.slots[port.index]?

def outputState? (graph : Graph) (node : NodeId) (output : Nat) : Option SlotState :=
  (graph.slot? node output).map Slot.state

-- What went wrong when an output was last computed.
def lastError? (graph : Graph) (node : NodeId) (output : Nat) : Option EvalError :=
  (graph.slot? node output).bind (·.error)

-- The last value of an output, which may be out of date.
def cached? (graph : Graph) (node : NodeId) (output : Nat) : Option Ragged :=
  (graph.slot? node output).bind (·.cache)

end Graph

end Dataflow
