import Dataflow.Graph.Outline
import Dataflow.Snapshot

namespace Dataflow.Graph

def uuidOf? (graph : Graph) (id : NodeId) : Option Uuid :=
  (graph.node? id).map (·.uuid)

-- The flags of ports in order, up to the last that has any.
def savedFlags (graph : Graph) (ports : List PortId) : List Flags :=
  let flags := ports.map fun id => ((graph.port? id).map (·.flags)).getD .none
  (flags.reverse.dropWhile Flags.isNone).reverse

def portRef? (graph : Graph) (id : PortId) : Option PortRef :=
  (graph.port? id).bind fun port =>
    (graph.uuidOf? port.node).map fun uuid => ⟨uuid, port.index⟩

def saveNode? (graph : Graph) (id : NodeId) : Option SavedNode :=
  (graph.node? id).map fun node =>
    { uuid := node.uuid
      tag := node.tag
      position := node.position
      properties := node.properties
      parent := (graph.parent? id).bind graph.uuidOf?
      inputFlags := graph.savedFlags node.inputs
      outputFlags := graph.savedFlags node.outputs }

def saveEdge? (graph : Graph) (id : EdgeId) : Option SavedEdge :=
  match graph.edge? id with
  | none => none
  | some edge =>
      match graph.portRef? edge.source, graph.portRef? edge.destination with
      | some source, some destination => some ⟨source, destination⟩
      | _, _ => none

def saveAlias? (graph : Graph) (id : PortId) : Option SavedAlias :=
  match graph.port? id with
  | none => none
  | some port =>
      match graph.portRef? id, port.aliasOf.bind graph.portRef? with
      | some own, some target => some ⟨port.direction, own, target⟩
      | _, _ => none

-- The graph as a document: containers before what they hold, edges by the inputs they
-- feed and there in the order in which they were made.
def save (graph : Graph) : Snapshot :=
  let order := graph.nodesInOrder
  let nodes := order.filterMap graph.node?
  { nodes := order.filterMap graph.saveNode?
    edges :=
      (((nodes.flatMap (·.inputs)).filterMap graph.port?).flatMap (·.edges)).filterMap
        graph.saveEdge?
    aliases := (nodes.flatMap Node.ports).filterMap graph.saveAlias? }

end Dataflow.Graph
