import Dataflow.Error.Message
import Dataflow.Graph.Edit
import Dataflow.Registry
import Dataflow.Snapshot

namespace Dataflow

-- What keeps a document from becoming a graph.
inductive RestoreError where
  | unknownNodeType (tag : String)
  | duplicateNode (uuid : Uuid)
  | missingNode (uuid : Uuid)
  | portOutOfRange (node : Uuid) (direction : Direction) (index : Nat)
  | rejectedEdge (edge : SavedEdge) (reason : ConnectionError)
  | graph (inner : GraphError)
deriving DecidableEq

def RestoreError.message (names : Names) : RestoreError → String
  | unknownNodeType tag => "unknown node type: " ++ tag
  | duplicateNode uuid => "duplicate node uuid: " ++ names.uuid uuid
  | missingNode uuid => "missing node: " ++ names.uuid uuid
  | portOutOfRange node direction index =>
      "node " ++ names.uuid node ++ " has no " ++ direction.name ++ " port " ++ toString index
  | rejectedEdge edge reason =>
      "edge " ++ names.uuid edge.source.node ++ ":" ++ toString edge.source.index ++ " -> " ++
        names.uuid edge.destination.node ++ ":" ++ toString edge.destination.index ++
        " rejected: " ++ reason.message names
  | graph inner => "graph error: " ++ inner.message names

namespace Graph

-- A refused edit as a refused document.
def edited {α : Type} : Except GraphError α → Except RestoreError α
  | .ok a => .ok a
  | .error e => .error (.graph e)

-- The node under a name that a document uses.
def savedNode (graph : Graph) (uuid : Uuid) : Except RestoreError NodeId :=
  match graph.findByUuid uuid with
  | some id => .ok id
  | none => .error (.missingNode uuid)

-- The port of a node that a document asks for.
def savedPort (graph : Graph) (direction : Direction) (node : NodeId) (ref : PortRef) :
    Except RestoreError PortId :=
  match graph.portAt? node direction ref.index with
  | some port => .ok port
  | none => .error (.portOutOfRange ref.node direction ref.index)

def resolveRef (graph : Graph) (direction : Direction) (ref : PortRef) :
    Except RestoreError PortId := do
  graph.savedPort direction (← graph.savedNode ref.node) ref

-- Flags put on the ports at one end of a node, from the given index on.
def restoreFlags (direction : Direction) (node : NodeId) (uuid : Uuid) :
    Nat → List Flags → Graph → Except RestoreError Graph
  | _, [], graph => .ok graph
  | index, flags :: rest, graph => do
      let port ← graph.savedPort direction node ⟨uuid, index⟩
      restoreFlags direction node uuid (index + 1) rest (← edited (graph.setPortFlags port flags))

def createSaved (registry : Registry) (saved : SavedNode) : Except RestoreError Template :=
  match registry.create saved.tag saved.properties with
  | .ok template => .ok template
  | .error (.unknownNodeType tag) => .error (.unknownNodeType tag)
  | .error e => .error (.graph e)

-- A node made at the top of the outline.
def restoreNode (registry : Registry) (graph : Graph) (saved : SavedNode) :
    Except RestoreError Graph :=
  if (graph.findByUuid saved.uuid).isSome then .error (.duplicateNode saved.uuid)
  else do
    let template ← createSaved registry saved
    let (id, graph) ← edited (graph.addNode template saved.uuid)
    let graph ← edited (graph.setPosition id saved.position)
    let graph ← restoreFlags .input id saved.uuid 0 saved.inputFlags graph
    restoreFlags .output id saved.uuid 0 saved.outputFlags graph

-- A node moved into the container that it names.
def restoreParent (graph : Graph) (saved : SavedNode) : Except RestoreError Graph :=
  match saved.parent with
  | none => .ok graph
  | some parent => do
      let container ← graph.savedNode parent
      let child ← graph.savedNode saved.uuid
      let (result, moved) := graph.moveInto child (some container)
      edited result
      pure moved

def restoreAlias (graph : Graph) (saved : SavedAlias) : Except RestoreError Graph := do
  let port ← graph.resolveRef saved.direction saved.port
  let target ← graph.resolveRef saved.direction saved.target
  edited (graph.linkAlias port target)

-- An edge made anew, under the same rules as any other.
def restoreEdge (graph : Graph) (saved : SavedEdge) : Except RestoreError Graph := do
  let source ← graph.resolveRef .output saved.source
  let destination ← graph.resolveRef .input saved.destination
  match graph.addEdge source destination with
  | .ok (_, joined) => pure joined
  | .error reason => .error (.rejectedEdge saved reason)

-- The graph that a document describes: nodes come first, then what stands inside what,
-- then aliases, then edges.
def restore (snapshot : Snapshot) (registry : Registry) (settings : Settings) :
    Except RestoreError Graph := do
  let graph ← snapshot.nodes.foldlM (restoreNode registry) (Graph.new settings)
  let graph ← snapshot.nodes.foldlM restoreParent graph
  let graph ← snapshot.aliases.foldlM restoreAlias graph
  snapshot.edges.foldlM restoreEdge graph

end Graph

end Dataflow
