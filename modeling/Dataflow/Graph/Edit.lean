import Dataflow.Graph.Connection

namespace Dataflow.Graph

-- The ports of a new node at one end, in order from the given index.
def createPorts (node : NodeId) (direction : Direction) :
    Nat → List PortSpec → Arena .port Port → List PortId × Arena .port Port
  | _, [], ports => ([], ports)
  | index, spec :: rest, ports =>
      let port : Port :=
        ⟨node, index, spec.name, direction, spec.type, spec.flags, spec.default, none, []⟩
      let (ids, created) := createPorts node direction (index + 1) rest (ports.insert port)
      (ports.fresh :: ids, created)

-- A node made from a template and put at the end of the item's children.
def withNode (graph : Graph) (template : Template) (uuid : Uuid) (parent : ItemId) : Graph :=
  let id := graph.nodes.fresh
  let (item, outline) := graph.outline.insert (.node id)
  let (inputs, ports) := createPorts id .input 0 template.inputs graph.ports
  let (outputs, ports) := createPorts id .output 0 template.outputs ports
  let node : Node :=
    { uuid := uuid
      tag := template.tag
      position := .origin
      properties := template.properties
      inputs := inputs
      outputs := outputs
      units := template.units
      slots := List.replicate template.outputs.length .empty
      item := item }
  { graph with
    nodes := graph.nodes.insert node
    ports := ports
    outline := (outline.appendChild? parent item).getD outline
    names := (uuid, id) :: graph.names }

-- A node is made only from a template without faults, and under a name of its own.
def insertNode (graph : Graph) (template : Template) (uuid : Uuid) (parent : ItemId) :
    Except GraphError (NodeId × Graph) :=
  match template.fault? with
  | some fault => .error (.invalidTemplate fault)
  | none =>
      if (graph.findByUuid uuid).isSome then .error (.invalidTemplate (.uuidTaken uuid))
      else .ok (graph.nodes.fresh, graph.withNode template uuid parent)

-- A node at the top of the outline.
def addNode (graph : Graph) (template : Template) (uuid : Uuid) :
    Except GraphError (NodeId × Graph) :=
  graph.insertNode template uuid graph.root

-- A node inside another.
def addNodeIn (graph : Graph) (template : Template) (uuid : Uuid) (container : NodeId) :
    Except GraphError (NodeId × Graph) :=
  match graph.node? container with
  | some found => graph.insertNode template uuid found.item
  | none => .error (.nodeNotFound container)

-- All ports of some nodes.
def portsOf (graph : Graph) (nodes : List NodeId) : List PortId :=
  (nodes.filterMap graph.node?).flatMap Node.ports

-- All edges that touch some ports.
def edgesAt (graph : Graph) (ports : List PortId) : List EdgeId :=
  (ports.filterMap graph.port?).flatMap (·.edges)

def uuidsOf (graph : Graph) (nodes : List NodeId) : List Uuid :=
  (nodes.filterMap graph.node?).map (·.uuid)

-- Nodes gone with their ports and their names, and the edges and aliases that touch these
-- ports.
def withdraw (graph : Graph) (doomed : List NodeId) : Graph :=
  let ports := graph.portsOf doomed
  let uuids := graph.uuidsOf doomed
  let cut := graph.dropEdges (graph.edgesAt ports)
  let unlinked := cut.ports.update fun _ port =>
    if port.aliasOf.any ports.contains then { port with aliasOf := none } else port
  { cut with
    ports := unlinked.keep fun other => !ports.contains other
    nodes := cut.nodes.keep fun other => !doomed.contains other
    names := cut.names.filter fun entry => !uuids.contains entry.1 }

-- A node removed with everything inside it; what read from them is out of date.
def removeNode (graph : Graph) (id : NodeId) : Option Graph :=
  match graph.node? id with
  | none => none
  | some node =>
      let doomed := graph.nodesUnder id node
      let rest := (doomed.foldl invalidate graph).withdraw doomed
      some { rest with outline := (rest.outline.take node.item).2 }

-- A port made to stand for another.
def forward (graph : Graph) (port target : PortId) : Graph :=
  { graph with ports := graph.ports.modify port fun p => { p with aliasOf := some target } }

-- A port made to stand for another of the same direction, unless that closes a loop.
def linkAlias (graph : Graph) (port target : PortId) : Except GraphError Graph :=
  match graph.port? port, graph.port? target with
  | none, _ => .error (.portNotFound port)
  | some _, none => .error (.portNotFound target)
  | some found, some other =>
      if found.direction ≠ other.direction then
        .error (.directionMismatch found.direction other.direction)
      else if graph.closesLoop target port then .error (.aliasCycle port target)
      else .ok ((graph.forward port target).invalidate found.node)

-- A port made to stand for itself.
def unlink (graph : Graph) (port : PortId) : Graph :=
  { graph with ports := graph.ports.modify port fun p => { p with aliasOf := none } }

-- A port made to stand for itself again; answers what it stood for.
def unlinkAlias (graph : Graph) (port : PortId) : Except GraphError (Option PortId × Graph) :=
  match graph.port? port with
  | none => .error (.portNotFound port)
  | some found =>
      match found.aliasOf with
      | none => .ok (none, graph)
      | some target => .ok (some target, (graph.unlink port).invalidate found.node)

-- One property of a node set.
def withProperty (graph : Graph) (node : NodeId) (key : String) (value : Nested Value) : Graph :=
  { graph with
    nodes := graph.nodes.modify node fun n =>
      { n with properties := n.properties.insert key value } }

def setProperty (graph : Graph) (node : NodeId) (key : String) (value : Nested Value) :
    Except GraphError Graph :=
  match graph.node? node with
  | none => .error (.nodeNotFound node)
  | some _ => .ok ((graph.withProperty node key value).invalidate node)

def withPosition (graph : Graph) (node : NodeId) (position : Position) : Graph :=
  { graph with nodes := graph.nodes.modify node fun n => { n with position := position } }

-- Where a node stands on the canvas changes no result.
def setPosition (graph : Graph) (node : NodeId) (position : Position) : Except GraphError Graph :=
  match graph.node? node with
  | none => .error (.nodeNotFound node)
  | some _ => .ok (graph.withPosition node position)

def withFlags (graph : Graph) (port : PortId) (flags : Flags) : Graph :=
  { graph with ports := graph.ports.modify port fun p => { p with flags := flags } }

def setPortFlags (graph : Graph) (port : PortId) (flags : Flags) : Except GraphError Graph :=
  match graph.port? port with
  | none => .error (.portNotFound port)
  | some found => .ok ((graph.withFlags port flags).invalidate found.node)

end Dataflow.Graph
