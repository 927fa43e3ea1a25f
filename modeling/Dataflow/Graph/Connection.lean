import Dataflow.Graph.Dependency
import Dataflow.Graph.Downstream
import Dataflow.Graph.Outline

namespace Dataflow.Graph

-- Which of two ports would be the source of an edge between them and which its
-- destination, in whichever order they are given, or why there may be none. Whether the
-- edge would close a loop is not asked here.
def orientConnection (graph : Graph) (a b : PortId) : Except ConnectionError (PortId × PortId) :=
  if a = b then .error .identityEdge
  else
    match graph.port? a, graph.port? b with
    | none, _ => .error (.portNotFound a)
    | some _, none => .error (.portNotFound b)
    | some portA, some portB =>
        if portA.direction = portB.direction then .error (.sameDirection portA.direction)
        else
          let (source, sourcePort, target, targetPort) :=
            match portA.direction with
            | .output => (a, portA, b, portB)
            | .input => (b, portB, a, portA)
          if sourcePort.node = targetPort.node then .error .selfLoop
          else if graph.encloses sourcePort.node targetPort.node ||
              graph.encloses targetPort.node sourcePort.node then
            .error .nestedScope
          else if graph.settings.enforcePortTypes && !sourcePort.type.feeds targetPort.type then
            .error (.typeMismatch sourcePort.type targetPort.type)
          else if (sourcePort.edges.filterMap graph.edge?).any fun edge =>
              edge.destination = target then
            .error .alreadyConnected
          else .ok (source, target)

-- The last check of an edge is that it closes no loop.
def checkConnection (graph : Graph) (a b : PortId) : Except ConnectionError (PortId × PortId) :=
  match graph.orientConnection a b with
  | .error e => .error e
  | .ok (source, target) =>
      if graph.closesLoop source target then .error .cycle else .ok (source, target)

-- An edge made, and put at the end of the lists of its two ports.
def join (graph : Graph) (source destination : PortId) : Graph :=
  let attach := fun port : Port => { port with edges := port.edges ++ [graph.edges.fresh] }
  { graph with
    edges := graph.edges.insert ⟨source, destination⟩
    ports := (graph.ports.modify source attach).modify destination attach }

-- Two ports joined. The destination's node and what reads from it are out of date.
def addEdge (graph : Graph) (a b : PortId) : Except ConnectionError (EdgeId × Graph) :=
  match graph.checkConnection a b with
  | .error e => .error e
  | .ok (source, destination) =>
      let joined := graph.join source destination
      match graph.port? destination with
      | some port => .ok (graph.edges.fresh, joined.invalidate port.node)
      | none => .ok (graph.edges.fresh, joined)

-- Edges gone, and gone from the lists of their ports.
def dropEdges (graph : Graph) (ids : List EdgeId) : Graph :=
  { graph with
    edges := graph.edges.keep fun id => !ids.contains id
    ports := graph.ports.update fun _ port =>
      { port with edges := port.edges.filter fun id => !ids.contains id } }

-- An edge removed, if it is there; the node it fed and what reads from it are out of
-- date.
def removeEdge (graph : Graph) (id : EdgeId) : Option Graph :=
  match graph.edge? id with
  | none => none
  | some edge =>
      let dropped := graph.dropEdges [id]
      match graph.port? edge.destination with
      | some port => some (dropped.invalidate port.node)
      | none => some dropped

end Dataflow.Graph
