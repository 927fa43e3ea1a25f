import Dataflow.Uuid

namespace Dataflow.CommandLine

-- What is to be evaluated: the graph in a document, at one node or at all those that
-- nothing reads from, with settings from another document.
structure EvalRequest where
  graph : String
  node : Option Uuid
  output : Nat
  config : Option String
deriving DecidableEq

-- What help may be asked for.
inductive Topic where
  | program
  | eval
  | nodes
  | demo
  | help
deriving DecidableEq

inductive Command where
  | eval (request : EvalRequest)
  | nodes
  | demo
  | help (topic : Topic)
deriving DecidableEq

-- The files that a command reads, in order.
def Command.files : Command → List String
  | eval request => request.config.toList ++ [request.graph]
  | _ => []

-- What is wrong with the arguments.
inductive UsageError where
  | nothing
  | unknownCommand (word : String)
  | unexpected (word : String)
  | missing (name : String)
  | repeated (name : String)
  | invalid (name word : String)
deriving DecidableEq

-- The options of an evaluation that take a value.
inductive Setting where
  | node
  | output
  | config
deriving DecidableEq

namespace Setting

def name : Setting → String
  | node => "--node"
  | output => "--output"
  | config => "--config"

def ofName? (name : String) : Option Setting :=
  [node, output, config].find? fun setting => setting.name = name

end Setting

-- What is known of an evaluation while its arguments are read.
structure Partial where
  graph : Option String
  node : Option Uuid
  output : Option Nat
  config : Option String

namespace Partial

def blank : Partial :=
  ⟨none, none, none, none⟩

-- A count of 64 bits in decimal digits; a plus sign may stand in front.
def count? (word : String) : Option Nat :=
  let digits :=
    match word.toList with
    | '+' :: rest => rest
    | cs => cs
  if digits.isEmpty || !digits.all Char.isDigit then none
  else
    let n := digits.foldl (fun sum c => 10 * sum + (c.toNat - '0'.toNat)) 0
    if n < Nat.pow 2 64 then some n else none

-- A setting given its value, once at most.
def set (sofar : Partial) (setting : Setting) (word : String) : Except UsageError Partial :=
  match setting with
  | .node =>
      if sofar.node.isSome then .error (.repeated setting.name)
      else
        match Uuid.ofText? word with
        | some uuid => .ok { sofar with node := some uuid }
        | none => .error (.invalid setting.name word)
  | .output =>
      if sofar.output.isSome then .error (.repeated setting.name)
      else
        match count? word with
        | some n => .ok { sofar with output := some n }
        | none => .error (.invalid setting.name word)
  | .config =>
      if sofar.config.isSome then .error (.repeated setting.name)
      else if word.isEmpty then .error (.missing setting.name)
      else .ok { sofar with config := some word }

-- The one word that is no option: the document with the graph.
def place (sofar : Partial) (word : String) : Except UsageError Partial :=
  if sofar.graph.isSome then .error (.unexpected word)
  else if word.isEmpty then .error (.missing "<GRAPH>")
  else .ok { sofar with graph := some word }

def finish (sofar : Partial) : Except UsageError Command :=
  match sofar.graph with
  | some graph => .ok (.eval ⟨graph, sofar.node, sofar.output.getD 0, sofar.config⟩)
  | none => .error (.missing "<GRAPH>")

end Partial

-- How an argument reads: as a word, as the mark after which everything is a word, as
-- a call for help, or as a setting whose value is attached or still to come.
inductive Argument where
  | word
  | endOfOptions
  | help
  | setting (key : Setting) (value : Option String)
  | unknown

-- The part before the first equals sign, and the part behind it if there is one.
def splitAtEquals (cs : List Char) : String × Option String :=
  let name := String.ofList (cs.takeWhile (· ≠ '='))
  match cs.dropWhile (· ≠ '=') with
  | _ :: value => (name, some (String.ofList value))
  | [] => (name, none)

def Argument.ofChars : List Char → Argument
  | ['-', '-'] => .endOfOptions
  | '-' :: '-' :: cs =>
      match splitAtEquals ('-' :: '-' :: cs) with
      | ("--help", none) => .help
      | (name, value) =>
          match Setting.ofName? name with
          | some key => .setting key value
          | none => .unknown
  | '-' :: 'h' :: _ => .help
  | ['-', 'o'] => .setting .output none
  | '-' :: 'o' :: '=' :: value => .setting .output (some (String.ofList value))
  | '-' :: 'o' :: value => .setting .output (some (String.ofList value))
  | '-' :: _ :: _ => .unknown
  | _ => .word

-- The arguments of an evaluation, taken one after the other.
def parseEval (sofar : Partial) : List String → Except UsageError Command
  | [] => sofar.finish
  | word :: rest =>
      match Argument.ofChars word.toList with
      | .help => .ok (.help .eval)
      | .unknown => .error (.unexpected word)
      | .word => do parseEval (← sofar.place word) rest
      | .endOfOptions => do (← rest.foldlM Partial.place sofar).finish
      | .setting key (some value) => do parseEval (← sofar.set key value) rest
      | .setting key none =>
          match rest with
          | [] => .error (.missing key.name)
          | value :: rest =>
              match Argument.ofChars value.toList with
              | .word => do parseEval (← sofar.set key value) rest
              | _ => .error (.missing key.name)

-- A command without arguments of its own.
def parseBare (command : Command) (topic : Topic) : List String → Except UsageError Command
  | [] => .ok command
  | word :: rest =>
      match Argument.ofChars word.toList with
      | .help => .ok (.help topic)
      | .endOfOptions =>
          match rest with
          | [] => .ok command
          | extra :: _ => .error (.unexpected extra)
      | _ => .error (.unexpected word)

def topic? (word : String) : Option Topic :=
  match word with
  | "eval" => some .eval
  | "nodes" => some .nodes
  | "demo" => some .demo
  | "help" => some .help
  | _ => none

-- The command that a list of arguments asks for.
def parse : List String → Except UsageError Command
  | [] => .error .nothing
  | "eval" :: rest => parseEval .blank rest
  | "nodes" :: rest => parseBare .nodes .nodes rest
  | "demo" :: rest => parseBare .demo .demo rest
  | ["help"] => .ok (.help .program)
  | ["help", word] =>
      match topic? word with
      | some topic => .ok (.help topic)
      | none => .error (.unknownCommand word)
  | "help" :: _ :: word :: _ => .error (.unknownCommand word)
  | word :: _ =>
      match Argument.ofChars word.toList with
      | .help => .ok (.help .program)
      | _ => .error (.unknownCommand word)

end Dataflow.CommandLine
