import Dataflow.Forest
import Dataflow.Settings
import Dataflow.Template

namespace Dataflow

-- Where values enter or leave a node. A port may stand for another one of the same
-- direction, and lists the edges that touch it in the order they were made.
structure Port where
  node : NodeId
  index : Nat
  name : String
  direction : Direction
  type : ValueType
  flags : Flags
  default : Option (Nested Value)
  aliasOf : Option PortId
  edges : List EdgeId

-- A connection from an output to an input.
structure Edge where
  source : PortId
  destination : PortId
deriving DecidableEq

inductive SlotState where
  | fresh
  | dirty
  | invalid
  | empty
deriving DecidableEq

-- What is kept of an output's last computations: the last value, whether the last
-- attempt failed and how, and whether anything changed since.
structure Slot where
  cache : Option Ragged
  dirty : Bool
  invalid : Bool
  error : Option EvalError
deriving DecidableEq

namespace Slot

def empty : Slot :=
  ⟨none, false, false, none⟩

def state (slot : Slot) : SlotState :=
  if slot.invalid then .invalid
  else if slot.dirty then .dirty
  else if slot.cache.isNone then .empty
  else .fresh

-- A computed value makes a slot fresh; a failure keeps the last value beside the error.
def settle (slot : Slot) : Except EvalError Ragged → Slot
  | .ok value => ⟨some value, false, false, none⟩
  | .error e => { slot with dirty := true, invalid := false, error := some e }

end Slot

-- A place on the canvas.
structure Position where
  x : Float32
  y : Float32
deriving DecidableEq, BEq

def Position.origin : Position :=
  ⟨0, 0⟩

structure Node where
  uuid : Uuid
  tag : String
  position : Position
  properties : Properties
  inputs : List PortId
  outputs : List PortId
  units : List EvalUnit
  slots : List Slot
  item : ItemId

namespace Node

-- The unit that computes an output.
def unit? (node : Node) (output : Nat) : Option EvalUnit :=
  node.units.find? fun unit => unit.output = output

def ports (node : Node) : List PortId :=
  node.inputs ++ node.outputs

def invalidate (node : Node) : Node :=
  { node with slots := node.slots.map fun slot => { slot with invalid := true } }

end Node

-- An item of the outline: its top, or a node.
inductive Entry where
  | root
  | node (id : NodeId)
deriving DecidableEq

-- Nodes with their ports, the edges between ports, and the outline that says which node
-- stands inside which. An index says which node goes by which name.
structure Graph where
  nodes : Arena .node Node
  ports : Arena .port Port
  edges : Arena .edge Edge
  outline : Forest Entry
  root : ItemId
  names : List (Uuid × NodeId)
  settings : Settings

namespace Graph

def new (settings : Settings) : Graph :=
  let (root, outline) := Forest.empty.insert Entry.root
  ⟨.empty, .empty, .empty, outline, root, [], settings⟩

def node? (graph : Graph) (id : NodeId) : Option Node :=
  graph.nodes.find? id

def port? (graph : Graph) (id : PortId) : Option Port :=
  graph.ports.find? id

def edge? (graph : Graph) (id : EdgeId) : Option Edge :=
  graph.edges.find? id

def nodeCount (graph : Graph) : Nat :=
  graph.nodes.size

def edgeCount (graph : Graph) : Nat :=
  graph.edges.size

def findByUuid (graph : Graph) (uuid : Uuid) : Option NodeId :=
  graph.names.lookup uuid

def inputPort? (graph : Graph) (node : NodeId) (index : Nat) : Option PortId :=
  (graph.node? node).bind fun node => node.inputs[index]?

def outputPort? (graph : Graph) (node : NodeId) (index : Nat) : Option PortId :=
  (graph.node? node).bind fun node => node.outputs[index]?

-- The port of a node at one end.
def portAt? (graph : Graph) (node : NodeId) (direction : Direction) (index : Nat) :
    Option PortId :=
  match direction with
  | .input => graph.inputPort? node index
  | .output => graph.outputPort? node index

end Graph

end Dataflow
