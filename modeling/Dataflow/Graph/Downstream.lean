import Dataflow.Closure
import Dataflow.Graph

namespace Dataflow.Graph

-- The owners of ports that stand for a port of the node, one for each such port, the
-- node itself apart.
def aliasReaders (graph : Graph) (id : NodeId) : List NodeId :=
  match graph.node? id with
  | none => []
  | some node =>
      let owned := node.ports
      graph.ports.values.filterMap fun port =>
        if port.aliasOf.any owned.contains && port.node ≠ id then some port.node else none

-- The edges of some ports, in order.
def edgesOf (graph : Graph) (ports : List PortId) : List Edge :=
  (ports.filterMap graph.port?).flatMap fun port => port.edges.filterMap graph.edge?

-- The nodes that read an output of the node, through an edge or an alias.
def dependents (graph : Graph) (id : NodeId) : List NodeId :=
  match graph.node? id with
  | none => []
  | some node =>
      (graph.edgesOf node.outputs).filterMap (fun edge =>
        (graph.port? edge.destination).map (·.node)) ++ graph.aliasReaders id

-- A node and everything that reads from it, directly or not.
def downstream (graph : Graph) (id : NodeId) : List NodeId :=
  Closure.reached graph.dependents graph.nodes.size id

-- Every result of a node and of what reads from it is out of date.
def invalidate (graph : Graph) (id : NodeId) : Graph :=
  let affected := graph.downstream id
  { graph with
    nodes := graph.nodes.update fun other node =>
      if affected.contains other then node.invalidate else node }

-- Each of the candidates once, at its first place.
def distinct (ids : List NodeId) : List NodeId :=
  Closure.unseen [] ids

-- The nodes that feed a node, in the order of its inputs and their edges.
def predecessors (graph : Graph) (id : NodeId) : List NodeId :=
  match graph.node? id with
  | none => []
  | some node =>
      distinct ((graph.edgesOf node.inputs).filterMap fun edge =>
        (graph.port? edge.source).map (·.node))

-- The nodes that a node feeds, in the order of its outputs and their edges.
def successors (graph : Graph) (id : NodeId) : List NodeId :=
  match graph.node? id with
  | none => []
  | some node =>
      distinct ((graph.edgesOf node.outputs).filterMap fun edge =>
        (graph.port? edge.destination).map (·.node))

end Dataflow.Graph
