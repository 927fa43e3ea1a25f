import Dataflow.Evaluation.Reading

namespace Dataflow

-- How many outputs were computed, found fresh, and failed.
structure Stats where
  computed : Nat
  cached : Nat
  failed : Nat
deriving DecidableEq

namespace Stats

def zero : Stats :=
  ⟨0, 0, 0⟩

def count (stats : Stats) : Except EvalError Ragged → Stats
  | .ok _ => { stats with computed := stats.computed + 1 }
  | .error _ => { stats with failed := stats.failed + 1 }

end Stats

-- A run of evaluations on one graph. `ran` holds the outputs whose functions were
-- called, in order.
structure Session where
  graph : Graph
  stats : Stats
  ran : List (NodeId × Nat)

-- A piece of the work that settles an output: to look at it and at what it reads, that
-- many steps from the start, or to compute it after these.
inductive Task where
  | visit (port : PortId) (depth : Nat)
  | compute (port : PortId)
deriving DecidableEq

-- One slot replaced.
def Graph.withSlot (graph : Graph) (node : NodeId) (output : Nat) (slot : Slot) : Graph :=
  { graph with
    nodes := graph.nodes.modify node fun found =>
      { found with slots := found.slots.set output slot } }

namespace Session

def start (graph : Graph) : Session :=
  ⟨graph, .zero, []⟩

-- A result kept in the slot of its output.
def finish (session : Session) (node : NodeId) (output : Nat)
    (result : Except EvalError Ragged) : Session :=
  match session.graph.ownSlot? node output with
  | none => session
  | some slot =>
      { session with
        graph := session.graph.withSlot node output (slot.settle result)
        stats := session.stats.count result }

-- The function of a unit called on what its inputs read. A failure to read them is a
-- failure of the output, and then nothing is called.
def runUnit (session : Session) (node : NodeId) (unit : EvalUnit) :
    Except EvalError Ragged × Session :=
  match session.graph.gather node unit with
  | .error e => (.error e, session)
  | .ok inputs =>
      ((unit.run inputs).map (session.graph.leave node unit.output),
        { session with ran := session.ran ++ [(node, unit.output)] })

def compute (session : Session) (node : NodeId) (output : Nat) : Session :=
  match session.graph.unit? node output with
  | none => session.finish node output (.error (.noEvaluator output))
  | some unit =>
      let (result, session) := session.runUnit node unit
      session.finish node output result

-- A first look at an output: a fresh one is done, one that was looked at before is on
-- its way, and any other is computed after the outputs that it reads. Answers what was
-- looked at and what there is to do next.
def visit (session : Session) (visited : List PortId) (port : PortId) (depth : Nat) :
    Except EvalError (List PortId × List Task) × Session :=
  match session.graph.locate port with
  | .error e => (.error e, session)
  | .ok (node, output) =>
      match session.graph.node? node, session.graph.ownSlot? node output with
      | none, _ => (.error (.nodeNotFound node), session)
      | some _, none => (.error (.outputOutOfRange node output), session)
      | some _, some slot =>
          if slot.state = .fresh then
            (.ok (visited, []),
              { session with stats := { session.stats with cached := session.stats.cached + 1 } })
          else if port ∈ visited then (.ok (visited, []), session)
          else
            let visited := port :: visited
            let limit := session.graph.settings.maxEvalDepth
            match session.graph.unit? node output with
            | none => (.ok (visited, []), session.finish node output (.error (.noEvaluator output)))
            | some unit =>
                if limit ≤ depth then
                  (.ok (visited, []),
                    session.finish node output (.error (.depthExceeded limit)))
                else
                  (.ok (visited,
                    (session.graph.sourcesOf node unit).map (.visit · (depth + 1)) ++
                      [.compute port]), session)

-- One task done.
def step (session : Session) (visited : List PortId) :
    Task → Except EvalError (List PortId × List Task) × Session
  | .visit port depth => session.visit visited port depth
  | .compute port =>
      match session.graph.locate port with
      | .error e => (.error e, session)
      | .ok (node, output) => (.ok (visited, []), session.compute node output)

-- Tasks done one after the other, each before those that stand behind it; at most
-- `fuel` of them. Answers the tasks that are left over.
def work : Nat → List PortId → List Task → Session → Except EvalError (List Task) × Session
  | _, _, [], session => (.ok [], session)
  | 0, _, task :: rest, session => (.ok (task :: rest), session)
  | fuel + 1, visited, task :: rest, session =>
      match session.step visited task with
      | (.error e, session) => (.error e, session)
      | (.ok (visited, tasks), session) => work fuel visited (tasks ++ rest) session

-- Every port is expanded once at most, so this many tasks are all there can be and none
-- is left over.
def workBound (graph : Graph) : Nat :=
  graph.ports.values.foldr
    (fun port total => 1 + (graph.sources port.node port.index).length + total) 1

-- An output and everything it reads brought up to date.
def settle (session : Session) (target : PortId) : Except EvalError Unit × Session :=
  let (result, session) := work (workBound session.graph) [] [.visit target 0] session
  (result.map fun _ => (), session)

def settleAll : List PortId → Session → Except EvalError Unit × Session
  | [], session => (.ok (), session)
  | target :: rest, session =>
      match session.settle target with
      | (.error e, session) => (.error e, session)
      | (.ok (), session) => settleAll rest session

-- The value of an output port, reshaped by every port on the walk to where it is
-- computed.
def evaluatePort (session : Session) (port : PortId) : Except EvalError Ragged × Session :=
  match session.graph.aliasChain port with
  | .error e => (.error e, session)
  | .ok chain =>
      match session.settle chain.last with
      | (.error e, session) => (.error e, session)
      | (.ok (), session) => (session.graph.readOutput chain, session)

def evaluate (session : Session) (node : NodeId) (output : Nat) :
    Except EvalError Ragged × Session :=
  match session.graph.outputOf node output with
  | .error e => (.error e, session)
  | .ok port => session.evaluatePort port

-- What an input reads: one value for each producer.
def inputData (session : Session) (input : PortId) : Except EvalError (List Ragged) × Session :=
  match settleAll (session.graph.producers input) session with
  | (.error e, session) => (.error e, session)
  | (.ok (), session) => (session.graph.readInput input, session)

end Session

-- The value of an output, with everything it reads brought up to date.
def Graph.evaluate (graph : Graph) (node : NodeId) (output : Nat) :
    Except EvalError Ragged × Graph :=
  let (result, session) := (Session.start graph).evaluate node output
  (result, session.graph)

end Dataflow
