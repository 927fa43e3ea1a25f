import Dataflow.Yaml.Token

namespace Dataflow.Yaml

-- A document as it is composed. Tags are full addresses. An alias points to whatever
-- has its number among the document's anchors.
inductive Node where
  | scalar (tag : Option (List Char)) (style : Style) (text : List Char)
  | sequence (tag : Option (List Char)) (items : List Node)
  | mapping (tag : Option (List Char)) (entries : List (Node × Node))
  | reference (target : Nat)
deriving Inhabited

-- The anchors of a document: the number that each name stands for just now, how many
-- definitions there have been, and the node of each definition with its number.
structure Anchors where
  names : List (List Char × Nat)
  definitions : Nat
  nodes : List (Nat × Nat × Node)

-- A definition whose node is still being read: which one it is, and its number.
structure Definition where
  order : Nat
  number : Nat

namespace Anchors

def empty : Anchors :=
  ⟨[], 0, []⟩

-- A name is numbered by how many names there are. A name that is used again changes
-- its number but not how many there are, so the next new name may take it over.
def define (anchors : Anchors) (name : List Char) : Definition × Anchors :=
  let number := anchors.names.length
  (⟨anchors.definitions, number⟩,
    { anchors with
      names := (name, number) :: anchors.names.filter fun entry => entry.1 ≠ name
      definitions := anchors.definitions + 1 })

def place (anchors : Anchors) (definition : Option Definition) (node : Node) : Anchors :=
  match definition with
  | some ⟨order, number⟩ => { anchors with nodes := (order, number, node) :: anchors.nodes }
  | none => anchors

def number? (anchors : Anchors) (name : List Char) : Option Nat :=
  anchors.names.lookup name

-- What a number stands for in the end: the node that began last among those it was
-- given to.
def node? (anchors : Anchors) (number : Nat) : Option Node :=
  let found := anchors.nodes.filter fun entry => entry.2.1 = number
  let latest := found.foldl (fun most entry => max most entry.1) 0
  (found.find? fun entry => entry.1 = latest).map (·.2.2)

end Anchors

-- What stands before a node: its anchor and its tag, in either order.
structure Head where
  anchor : Option (List Char)
  tag : Option (List Char × List Char)

def takeHead : List Token → Head × List Token
  | .anchor name :: .tag handle suffix :: rest => (⟨some name, some (handle, suffix)⟩, rest)
  | .anchor name :: rest => (⟨some name, none⟩, rest)
  | .tag handle suffix :: .anchor name :: rest => (⟨some name, some (handle, suffix)⟩, rest)
  | .tag handle suffix :: rest => (⟨none, some (handle, suffix)⟩, rest)
  | rest => (⟨none, none⟩, rest)

-- The shorthands for tags that a document has, its own before the standing ones.
abbrev Shorthands := List (List Char × List Char)

def standardAddress : List Char :=
  "tag:yaml.org,2002:".toList

def standingShorthands : Shorthands :=
  [(['!'], ['!']), (['!', '!'], standardAddress)]

-- A tag without a handle is an address already; a handle must be known.
def fullTag? (shorthands : Shorthands) : Option (List Char × List Char) →
    Option (Option (List Char))
  | none => some none
  | some ([], suffix) => some (some suffix)
  | some (handle, suffix) => (shorthands.lookup handle).map fun start => some (start ++ suffix)

-- A node with what has been read of the anchors, and the tokens that follow.
abbrev Composed := Node × Anchors × List Token

def emptyNode : Node :=
  .scalar none .plain []

-- Where a node may stand: among block nodes, as a value or key of a block mapping,
-- whose lists may stand without indentation, or inside brackets.
inductive Context where
  | block
  | entry
  | flow
deriving DecidableEq

-- An anchor is numbered when its node begins, before the anchors inside it.
def defineHead (anchors : Anchors) (head : Head) : Option Definition × Anchors :=
  match head.anchor with
  | some name =>
      let (definition, anchors) := anchors.define name
      (some definition, anchors)
  | none => (none, anchors)

mutual
-- One node. `fuel` bounds the steps; each takes a token or leaves a level.
def composeNode (shorthands : Shorthands) (context : Context) :
    Nat → Anchors → List Token → Option Composed
  | 0, _, _ => none
  | _ + 1, anchors, .reference name :: rest =>
      (anchors.number? name).map fun number => (.reference number, anchors, rest)
  | fuel + 1, anchors, tokens =>
      let (head, rest) := takeHead tokens
      match fullTag? shorthands head.tag with
      | none => none
      | some tag =>
          let (definition, anchors) := defineHead anchors head
          let sequence := fun (items, anchors, rest) =>
            let node := Node.sequence tag items
            (node, anchors.place definition node, rest)
          let mapping := fun (entries, anchors, rest) =>
            let node := Node.mapping tag entries
            (node, anchors.place definition node, rest)
          let scalar := fun style text rest =>
            let node := Node.scalar (if tag = some ['!'] then none else tag) style text
            (node, anchors.place definition node, rest)
          match rest with
          | .blockEntry :: _ =>
              if context = .entry then
                (composeIndentless shorthands fuel anchors [] rest).map sequence
              else if head.anchor.isSome || head.tag.isSome then
                some (scalar .plain [] rest)
              else none
          | .scalar style text :: rest => some (scalar style text rest)
          | .flowSequenceStart :: rest =>
              (composeFlowSequence shorthands fuel anchors [] true rest).map sequence
          | .flowMappingStart :: rest =>
              (composeFlowMapping shorthands fuel anchors [] true rest).map mapping
          | .blockSequenceStart :: inner =>
              if context ≠ .flow then
                (composeBlockSequence shorthands fuel anchors [] inner).map sequence
              else if head.anchor.isSome || head.tag.isSome then
                some (scalar .plain [] rest)
              else none
          | .blockMappingStart :: inner =>
              if context ≠ .flow then
                (composeBlockMapping shorthands fuel anchors [] inner).map mapping
              else if head.anchor.isSome || head.tag.isSome then
                some (scalar .plain [] rest)
              else none
          | rest =>
              if head.anchor.isSome || head.tag.isSome then some (scalar .plain [] rest) else none

-- The items of a list in a block, up to the end of the block.
def composeBlockSequence (shorthands : Shorthands) :
    Nat → Anchors → List Node → List Token → Option (List Node × Anchors × List Token)
  | 0, _, _, _ => none
  | fuel + 1, anchors, done, tokens =>
      match tokens with
      | .blockEntry :: rest =>
          match rest with
          | .blockEntry :: _ | .blockEnd :: _ =>
              composeBlockSequence shorthands fuel anchors (emptyNode :: done) rest
          | _ =>
              match composeNode shorthands .block fuel anchors rest with
              | some (node, anchors, rest) =>
                  composeBlockSequence shorthands fuel anchors (node :: done) rest
              | none => none
      | .blockEnd :: rest => some (done.reverse, anchors, rest)
      | _ => none

-- The items of a list that stands at the indentation of its key. It ends with its last
-- item.
def composeIndentless (shorthands : Shorthands) :
    Nat → Anchors → List Node → List Token → Option (List Node × Anchors × List Token)
  | 0, _, _, _ => none
  | fuel + 1, anchors, done, tokens =>
      match tokens with
      | .blockEntry :: rest =>
          match rest with
          | .blockEntry :: _ | .key :: _ | .value :: _ | .blockEnd :: _ =>
              composeIndentless shorthands fuel anchors (emptyNode :: done) rest
          | _ =>
              match composeNode shorthands .block fuel anchors rest with
              | some (node, anchors, rest) =>
                  composeIndentless shorthands fuel anchors (node :: done) rest
              | none => none
      | rest => some (done.reverse, anchors, rest)

-- The entries of a mapping in a block, up to the end of the block.
def composeBlockMapping (shorthands : Shorthands) :
    Nat → Anchors → List (Node × Node) → List Token →
      Option (List (Node × Node) × Anchors × List Token)
  | 0, _, _, _ => none
  | fuel + 1, anchors, done, tokens =>
      match tokens with
      | .key :: rest =>
          match composeBlockPart shorthands fuel anchors rest with
          | some (key, anchors, rest) =>
              match rest with
              | .value :: rest =>
                  match composeBlockPart shorthands fuel anchors rest with
                  | some (value, anchors, rest) =>
                      composeBlockMapping shorthands fuel anchors ((key, value) :: done) rest
                  | none => none
              | rest => composeBlockMapping shorthands fuel anchors ((key, emptyNode) :: done) rest
          | none => none
      | .blockEnd :: rest => some (done.reverse, anchors, rest)
      | _ => none

-- A key or value of a block mapping, which may be left out.
def composeBlockPart (shorthands : Shorthands) :
    Nat → Anchors → List Token → Option Composed
  | 0, _, _ => none
  | fuel + 1, anchors, tokens =>
      match tokens with
      | .key :: _ | .value :: _ | .blockEnd :: _ => some (emptyNode, anchors, tokens)
      | _ => composeNode shorthands .entry fuel anchors tokens

-- The items of a list in brackets after its start; `first` says whether any comma is
-- still to come. A key among the items makes a mapping of one entry.
def composeFlowSequence (shorthands : Shorthands) :
    Nat → Anchors → List Node → Bool → List Token →
      Option (List Node × Anchors × List Token)
  | 0, _, _, _, _ => none
  | fuel + 1, anchors, done, first, tokens =>
      match tokens with
      | .flowSequenceEnd :: rest => some (done.reverse, anchors, rest)
      | _ =>
          match (if first then some tokens else
              match tokens with
              | .flowEntry :: rest => some rest
              | _ => none) with
          | none => none
          | some (.flowSequenceEnd :: rest) => some (done.reverse, anchors, rest)
          | some (.key :: rest) =>
              match composeFlowPair shorthands fuel anchors rest with
              | some (pair, anchors, rest) =>
                  composeFlowSequence shorthands fuel anchors (.mapping none [pair] :: done)
                    false rest
              | none => none
          | some rest =>
              match composeNode shorthands .flow fuel anchors rest with
              | some (node, anchors, rest) =>
                  composeFlowSequence shorthands fuel anchors (node :: done) false rest
              | none => none

-- The one entry of a mapping inside a list in brackets. Where the key is left out, the
-- token after it is passed over.
def composeFlowPair (shorthands : Shorthands) :
    Nat → Anchors → List Token → Option ((Node × Node) × Anchors × List Token)
  | 0, _, _ => none
  | fuel + 1, anchors, tokens =>
      match (match tokens with
        | .value :: rest => some (emptyNode, anchors, rest)
        | .flowEntry :: rest => some (emptyNode, anchors, rest)
        | .flowSequenceEnd :: rest => some (emptyNode, anchors, rest)
        | _ => composeNode shorthands .flow fuel anchors tokens) with
      | none => none
      | some (key, anchors, rest) =>
          match rest with
          | .value :: rest =>
              match rest with
              | .flowEntry :: _ | .flowSequenceEnd :: _ => some ((key, emptyNode), anchors, rest)
              | _ =>
                  (composeNode shorthands .flow fuel anchors rest).map
                    fun (value, anchors, rest) => ((key, value), anchors, rest)
          | rest => some ((key, emptyNode), anchors, rest)

-- The entries of a mapping in braces after its start. An item without a key mark is a
-- key over nothing.
def composeFlowMapping (shorthands : Shorthands) :
    Nat → Anchors → List (Node × Node) → Bool → List Token →
      Option (List (Node × Node) × Anchors × List Token)
  | 0, _, _, _, _ => none
  | fuel + 1, anchors, done, first, tokens =>
      match tokens with
      | .flowMappingEnd :: rest => some (done.reverse, anchors, rest)
      | _ =>
          match (if first then some tokens else
              match tokens with
              | .flowEntry :: rest => some rest
              | _ => none) with
          | none => none
          | some (.flowMappingEnd :: rest) => some (done.reverse, anchors, rest)
          | some (.key :: rest) =>
              match composeFlowKey shorthands fuel anchors rest with
              | some (entry, anchors, rest) =>
                  composeFlowMapping shorthands fuel anchors (entry :: done) false rest
              | none => none
          | some rest =>
              match composeNode shorthands .flow fuel anchors rest with
              | some (node, anchors, rest) =>
                  composeFlowMapping shorthands fuel anchors ((node, emptyNode) :: done) false rest
              | none => none

-- An entry of a mapping in braces after its key mark; key and value may be left out.
def composeFlowKey (shorthands : Shorthands) :
    Nat → Anchors → List Token → Option ((Node × Node) × Anchors × List Token)
  | 0, _, _ => none
  | fuel + 1, anchors, tokens =>
      match (match tokens with
        | .value :: _ => some (emptyNode, anchors, tokens)
        | .flowEntry :: _ => some (emptyNode, anchors, tokens)
        | .flowMappingEnd :: _ => some (emptyNode, anchors, tokens)
        | _ => composeNode shorthands .flow fuel anchors tokens) with
      | none => none
      | some (key, anchors, rest) =>
          match rest with
          | .value :: rest =>
              match rest with
              | .flowEntry :: _ | .flowMappingEnd :: _ => some ((key, emptyNode), anchors, rest)
              | _ =>
                  (composeNode shorthands .flow fuel anchors rest).map
                    fun (value, anchors, rest) => ((key, value), anchors, rest)
          | rest => some ((key, emptyNode), anchors, rest)
end

-- What the directives before a document say. The version may be given once and must be
-- 1.1 or 1.2; a handle may be given once.
def takeDirectives (versionSeen : Bool) (shorthands : Shorthands) :
    List Token → Option (Shorthands × List Token)
  | .version major minor :: rest =>
      if versionSeen || major ≠ 1 || (minor ≠ 1 && minor ≠ 2) then none
      else takeDirectives true shorthands rest
  | .shorthand handle start :: rest =>
      if shorthands.any fun entry => entry.1 = handle then none
      else takeDirectives versionSeen (shorthands ++ [(handle, start)]) rest
  | rest => some (shorthands ++ standingShorthands, rest)

-- A document: its root, what its anchors stand for, and how large it is. A text
-- without any document has no root.
structure Document where
  root : Option Node
  anchors : Anchors
  size : Nat

mutual
-- Every scalar and alias counts one, every collection two for its ends.
def eventCount : Node → Nat
  | .scalar _ _ _ => 1
  | .reference _ => 1
  | .sequence _ items => 2 + eventCountAll items
  | .mapping _ entries => 2 + eventCountEntries entries

def eventCountAll : List Node → Nat
  | [] => 0
  | item :: rest => eventCount item + eventCountAll rest

def eventCountEntries : List (Node × Node) → Nat
  | [] => 0
  | (key, value) :: rest => eventCount key + eventCount value + eventCountEntries rest
end

-- The content of a document after its start mark, which may be missing.
def composeContent (shorthands : Shorthands) (tokens : List Token) : Option Composed :=
  match tokens with
  | [] => some (emptyNode, .empty, [])
  | .version _ _ :: _ | .shorthand _ _ :: _ | .documentStart :: _ | .documentEnd :: _ =>
      some (emptyNode, .empty, tokens)
  | _ => composeNode shorthands .block (4 * tokens.length + 4) .empty tokens

-- Nothing but end marks may follow the one document.
def compose? (tokens : List Token) : Option Document := do
  match tokens with
  | [] => pure ⟨none, .empty, 1⟩
  | _ =>
      let (shorthands, rest) ← takeDirectives false [] tokens
      let (node, anchors, rest) ←
        match rest with
        | .documentStart :: rest => composeContent shorthands rest
        | _ =>
            if rest.length = tokens.length then
              composeNode shorthands .block (4 * tokens.length + 4) .empty tokens
            else none
      if rest.all (· = .documentEnd) then pure ⟨some node, anchors, eventCount node⟩
      else none

def document? (text : String) : Option Document := do
  compose? (← tokens? text.toList)

end Dataflow.Yaml
