import Dataflow.CommandLine.Help
import Dataflow.Display
import Dataflow.Evaluation.Session
import Dataflow.Snapshot.Restore
import Dataflow.Snapshot.Save

namespace Dataflow.CommandLine

def blanks (count : Nat) : String :=
  String.ofList (List.replicate count ' ')

-- What a run leaves behind.
structure Outcome where
  code : Nat
  out : String
  err : String
deriving DecidableEq

-- A failure with what caused it, the outermost first.
structure Failure where
  message : String
  causes : List String
deriving DecidableEq

namespace Failure

-- Lines after the first of a cause are moved in below it.
def indented (margin : String) (text : String) : String :=
  String.join (text.toList.map fun c => if c = '\n' then "\n" ++ margin else c.toString)

-- Several causes are numbered.
def causeLine (numbered : Bool) (cause : String × Nat) : String :=
  if numbered then
    blanks (5 - (toString cause.2).length) ++ toString cause.2 ++ ": " ++
      indented (blanks 7) cause.1
  else blanks 4 ++ indented (blanks 4) cause.1

def text (failure : Failure) : String :=
  let numbered := 1 < failure.causes.length
  "Error: " ++ failure.message ++ "\n" ++
    (if failure.causes.isEmpty then ""
      else "\nCaused by:\n" ++ lines (failure.causes.zipIdx.map (causeLine numbered)))

end Failure

-- The last part of a path that names anything.
def fileName? (path : String) : Option (List Char) :=
  let parts := path.splitToList (· = '/')
  let named := parts.filter fun part => part ≠ "" ∧ part ≠ "."
  match named.getLast? with
  | some part => if part = ".." then none else some part.toList
  | none => none

-- What follows the last point of a file's name, if anything precedes it.
def extension? (path : String) : Option (List Char) :=
  (fileName? path).bind fun name =>
    let ending := name.reverse.takeWhile (· ≠ '.')
    let before := (name.reverse.dropWhile (· ≠ '.')).drop 1
    if before.isEmpty then none else some ending.reverse

def isJson (path : String) : Bool :=
  (extension? path).any fun ending => ending.map Char.toLower = "json".toList

-- The files that a run may read: their text, or why there is none.
abbrev Files := String → Except String String

def readFile (files : Files) (what path : String) : Except Failure String :=
  match files path with
  | .ok text => .ok text
  | .error cause => .error ⟨"reading " ++ what ++ " " ++ path, [cause]⟩

-- A document in the format that the name of its file tells.
def readAs {α : Type} (json yaml : String → Option α) (path text : String) : Except Failure α :=
  let (result, format) := if isJson path then (json text, "json") else (yaml text, "yaml")
  match result with
  | some a => .ok a
  | none => .error ⟨format ++ " error", []⟩

def loadSettings (files : Files) : Option String → Except Failure Settings
  | none => .ok .standard
  | some path => do
      readAs Settings.ofJson? Settings.ofYaml? path (← readFile files "config" path)

def restoreCauses (e : RestoreError) : List String :=
  match e with
  | .graph inner => [e.message .plain, inner.message .plain]
  | _ => [e.message .plain]

def loadGraph (files : Files) (path : String) (settings : Settings) : Except Failure Graph := do
  let text ← readFile files "graph" path
  let snapshot ← readAs Snapshot.ofJson? Snapshot.ofYaml? path text
  match Graph.restore snapshot .core settings with
  | .ok graph => pure graph
  | .error e => .error ⟨"restoring graph " ++ path, restoreCauses e⟩

-- The line about one output, evaluated.
def outputLine (graph : Graph) (id : NodeId) (output : Nat) : String × Graph :=
  let (result, after) := graph.evaluate id output
  let head :=
    match graph.node? id with
    | some node => node.uuid.toText ++ " " ++ node.tag ++ "[" ++ toString output ++ "]"
    | none => ""
  match result with
  | .ok value => (head ++ " = " ++ value.toNested.display Value.display, after)
  | .error e => (head ++ " failed: " ++ e.rootCause.message .plain, after)

def outputLines (output : Nat) : List NodeId → Graph → List String
  | [], _ => []
  | id :: rest, graph =>
      let (line, graph) := outputLine graph id output
      line :: outputLines output rest graph

-- The nodes to evaluate: the one asked for, or those at the top that nothing reads from.
def targets (graph : Graph) (request : EvalRequest) : Except Failure (List NodeId) :=
  match request.node with
  | some uuid =>
      match graph.findByUuid uuid with
      | some id => .ok [id]
      | none => .error ⟨"no node " ++ uuid.toText ++ " in " ++ request.graph, []⟩
  | none => .ok ((graph.children none).filter fun id => (graph.successors id).isEmpty)

def eval (files : Files) (request : EvalRequest) : Except Failure String := do
  let settings ← loadSettings files request.config
  let graph ← loadGraph files request.graph settings
  pure (lines (outputLines request.output (← targets graph request) graph))

def portList (ports : List PortMetadata) : String :=
  String.intercalate ", " (ports.map fun port => port.name ++ ": " ++ port.type.name)

def nodeLine (metadata : Metadata) : String :=
  metadata.id ++ blanks (10 - metadata.id.length) ++ " [" ++ metadata.category ++ "] (" ++
    portList metadata.inputs ++ ") -> (" ++ portList metadata.outputs ++ ")"

def nodes : String :=
  lines (Registry.core.metadata.map nodeLine)

-- A fault of the example itself, which has none.
def expect {ε α : Type} : Except ε α → Except Failure α
  | .ok a => .ok a
  | .error _ => .error ⟨"the example is broken", []⟩

-- The names of the nodes of the example.
structure DemoNames where
  stop : Uuid
  range : Uuid
  multiply : Uuid

def addExample (graph : Graph) (uuid : Uuid) (tag : String)
    (properties : List (String × Nested Value)) (x : Float32) :
    Except Failure (NodeId × Graph) := do
  let template ← expect (Registry.core.create tag (.ofList properties))
  let (id, graph) ← expect (graph.addNode template uuid)
  pure (id, ← expect (graph.setPosition id ⟨x, 0⟩))

def joinExample (graph : Graph) (source : NodeId) (destination : NodeId) (input : Nat) :
    Except Failure Graph := do
  match graph.outputPort? source 0, graph.inputPort? destination input with
  | some output, some port => return (← expect (graph.addEdge output port)).2
  | _, _ => .error ⟨"missing port", []⟩

-- Two ranges multiplied by ten, and then by minus one.
def demo (names : DemoNames) : Except Failure String := do
  let stops : Nested Value := .list [.leaf (.number 3), .leaf (.number 5)]
  let (stop, graph) ← addExample (.new .standard) names.stop "number" [("value", stops)] 0
  let (range, graph) ← addExample graph names.range "range" [] 200
  let (multiply, graph) ←
    addExample graph names.multiply "multiply" [("b", .leaf (.number 10))] 400
  let graph ← joinExample graph stop range 1
  let graph ← joinExample graph range multiply 0
  let (first, graph) := outputLine graph multiply 0
  let changed ← expect (graph.setProperty multiply "b" (.leaf (.number (-1))))
  pure (lines [graph.save.toYaml, first, (outputLine changed multiply 0).1])

def perform (files : Files) (names : DemoNames) : Command → Except Failure String
  | .eval request => eval files request
  | .nodes => .ok nodes
  | .demo => demo names
  | .help topic => .ok (help topic)

-- The files that a run with these arguments may ask for.
def wanted (args : List String) : List String :=
  match parse args with
  | .ok command => command.files
  | .error _ => []

-- A whole run, from its arguments to what it leaves behind.
def run (files : Files) (names : DemoNames) (args : List String) : Outcome :=
  match parse args with
  | .error fault => ⟨2, "", fault.message⟩
  | .ok command =>
      match perform files names command with
      | .ok out => ⟨0, out, ""⟩
      | .error failure => ⟨1, "", failure.text⟩

end Dataflow.CommandLine
