import Dataflow.Document.Source
import Dataflow.Graph
import Dataflow.Json.Place
import Dataflow.Json.Printer
import Dataflow.Yaml.Place
import Dataflow.Yaml.Printer

namespace Dataflow

-- A port by what outlives a session: the name of its node, and its index at one end.
structure PortRef where
  node : Uuid
  index : Nat
deriving DecidableEq, BEq

structure SavedEdge where
  source : PortRef
  destination : PortRef
deriving DecidableEq, BEq

-- The port that stands for another, both at the same end of their nodes.
structure SavedAlias where
  direction : Direction
  port : PortRef
  target : PortRef
deriving DecidableEq, BEq

-- A node without its ports, which follow from its tag and its properties. Of the flags
-- of its ports, those past the last one set are left out.
structure SavedNode where
  uuid : Uuid
  tag : String
  position : Position
  properties : Properties
  parent : Option Uuid
  inputFlags : List Flags
  outputFlags : List Flags
deriving DecidableEq, BEq

-- A graph as a document holds it.
structure Snapshot where
  nodes : List SavedNode
  edges : List SavedEdge
  aliases : List SavedAlias
deriving DecidableEq, BEq

namespace Position

def toTree (position : Position) : Tree :=
  .seq [.single position.x, .single position.y]

def read {place : Type} [Source place] (at_ : place) : Reading Position := do
  match ← Source.items at_ with
  | [x, y] => pure ⟨← Source.single x, ← Source.single y⟩
  | _ => Reading.refuse

end Position

namespace SavedEdge

def toTree (edge : SavedEdge) : Tree :=
  .record
    [("from_node", .text edge.source.node.toText), ("from_port", .int edge.source.index),
      ("to_node", .text edge.destination.node.toText), ("to_port", .int edge.destination.index)]

def read {place : Type} [Source place] (at_ : place) : Reading SavedEdge := do
  match ← Source.fields ["from_node", "from_port", "to_node", "to_port"] at_ with
  | [sourceNode, output, targetNode, input] =>
      pure
        { source :=
            ⟨← Source.required Source.uuid sourceNode, ← Source.required Source.natural output⟩
          destination :=
            ⟨← Source.required Source.uuid targetNode, ← Source.required Source.natural input⟩ }
  | _ => Reading.refuse

end SavedEdge

namespace SavedAlias

def toTree (saved : SavedAlias) : Tree :=
  .record
    [("node", .text saved.port.node.toText), ("direction", .text saved.direction.name),
      ("port", .int saved.port.index), ("target_node", .text saved.target.node.toText),
      ("target_port", .int saved.target.index)]

def read {place : Type} [Source place] (at_ : place) : Reading SavedAlias := do
  match ← Source.fields ["node", "direction", "port", "target_node", "target_port"] at_ with
  | [node, direction, port, targetNode, targetPort] =>
      let node ← Source.required Source.uuid node
      let direction ← Source.required Source.direction direction
      let port ← Source.required Source.natural port
      pure
        { direction := direction
          port := ⟨node, port⟩
          target :=
            ⟨← Source.required Source.uuid targetNode,
              ← Source.required Source.natural targetPort⟩ }
  | _ => Reading.refuse

end SavedAlias

namespace SavedNode

-- A list of flags, as a field that is left out when the list is empty.
def flagsField (name : String) (flags : List Flags) : List (String × Tree) :=
  if flags.isEmpty then [] else [(name, .seq (flags.map fun f => .int f.bits))]

def parentField (parent : Option Uuid) : List (String × Tree) :=
  match parent with
  | some uuid => [("parent", .text uuid.toText)]
  | none => []

def toTree (node : SavedNode) : Tree :=
  .record
    ([("uuid", .text node.uuid.toText), ("type_tag", .text node.tag),
        ("position", node.position.toTree),
        ("properties", .record (node.properties.entries.map fun entry =>
          (entry.1, .ofNestedValue entry.2)))] ++
      parentField node.parent ++ flagsField "input_flags" node.inputFlags ++
      flagsField "output_flags" node.outputFlags)

-- A parent may be given as nothing.
def readParent {place : Type} [Source place] (at_ : place) : Reading (Option Uuid) := do
  match ← Source.optional at_ with
  | some inner => return some (← Source.uuid inner)
  | none => pure none

def read {place : Type} [Source place] (at_ : place) : Reading SavedNode := do
  match ← Source.fields
      ["uuid", "type_tag", "position", "properties", "parent", "input_flags", "output_flags"]
      at_ with
  | [uuid, tag, position, properties, parent, inputFlags, outputFlags] =>
      pure
        { uuid := ← Source.required Source.uuid uuid
          tag := ← Source.required Source.text tag
          position := ← Source.orElse .origin Position.read position
          properties := ← Source.orElse .empty Source.properties properties
          parent := ← Source.orElse none readParent parent
          inputFlags := ← Source.orElse [] (Source.list Source.flags) inputFlags
          outputFlags := ← Source.orElse [] (Source.list Source.flags) outputFlags }
  | _ => Reading.refuse

end SavedNode

namespace Snapshot

def toTree (snapshot : Snapshot) : Tree :=
  .record
    [("nodes", .seq (snapshot.nodes.map SavedNode.toTree)),
      ("edges", .seq (snapshot.edges.map SavedEdge.toTree)),
      ("aliases", .seq (snapshot.aliases.map SavedAlias.toTree))]

-- A document may leave out its edges and its aliases.
def read {place : Type} [Source place] (at_ : place) : Reading Snapshot := do
  match ← Source.fields ["nodes", "edges", "aliases"] at_ with
  | [nodes, edges, aliases] =>
      pure
        { nodes := ← Source.required (Source.list SavedNode.read) nodes
          edges := ← Source.orElse [] (Source.list SavedEdge.read) edges
          aliases := ← Source.orElse [] (Source.list SavedAlias.read) aliases }
  | _ => Reading.refuse

def toJson (snapshot : Snapshot) : String :=
  Json.pretty 0 snapshot.toTree

def ofJson? : String → Option Snapshot :=
  Json.read? read

def toYaml (snapshot : Snapshot) : String :=
  Yaml.print snapshot.toTree

def ofYaml? : String → Option Snapshot :=
  Yaml.read? read

end Snapshot

end Dataflow
