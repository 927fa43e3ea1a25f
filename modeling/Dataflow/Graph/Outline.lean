import Dataflow.Graph

namespace Dataflow.Graph

-- The node that an item of the outline stands for.
def nodeOfItem? (graph : Graph) (item : ItemId) : Option NodeId :=
  match graph.outline.get? item with
  | some (.node id) => some id
  | _ => none

-- Whether the second node stands inside the first, at any depth.
def encloses (graph : Graph) (container node : NodeId) : Bool :=
  match graph.node? container, graph.node? node with
  | some outer, some inner => graph.outline.isAncestor outer.item inner.item
  | _, _ => false

def parent? (graph : Graph) (node : NodeId) : Option NodeId :=
  (graph.node? node).bind fun found =>
    (graph.outline.parent? found.item).bind graph.nodeOfItem?

-- The item of a container, that of the top where none is given.
def containerItem? (graph : Graph) (container : Option NodeId) : Option ItemId :=
  match container with
  | some id => (graph.node? id).map (·.item)
  | none => some graph.root

-- The nodes that stand directly inside a container.
def children (graph : Graph) (container : Option NodeId) : List NodeId :=
  match graph.containerItem? container with
  | some item => (graph.outline.children item).filterMap graph.nodeOfItem?
  | none => []

-- Every node, each container before what it holds.
def nodesInOrder (graph : Graph) : List NodeId :=
  (graph.outline.descendants graph.root).filterMap graph.nodeOfItem?

-- A node and everything inside it, in the order of the outline.
def nodesUnder (graph : Graph) (id : NodeId) (node : Node) : List NodeId :=
  id :: (graph.outline.descendants node.item).filterMap graph.nodeOfItem?

-- A node moved to the end of a container. What cannot move there goes to the end of
-- the container it came from.
def moveInto (graph : Graph) (node : NodeId) (container : Option NodeId) :
    Except GraphError Unit × Graph :=
  match graph.node? node, graph.containerItem? container with
  | none, _ => (.error (.nodeNotFound node), graph)
  | some _, none => (.error (.nodeNotFound (container.getD .null)), graph)
  | some found, some parent =>
      let previous := (graph.outline.parent? found.item).getD graph.root
      let loose := (graph.outline.detach? found.item).getD graph.outline
      match loose.appendChild? parent found.item with
      | some outline => (.ok (), { graph with outline := outline })
      | none =>
          let outline := (loose.appendChild? previous found.item).getD loose
          (.error (.invalidTemplate .insideItself), { graph with outline := outline })

end Dataflow.Graph
