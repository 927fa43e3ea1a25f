import Dataflow.Document.Source
import Dataflow.Yaml.Node
import Dataflow.Yaml.Resolve

namespace Dataflow.Yaml

-- A node of a document, or nothing where the text has no document, with the number of
-- levels that may still be entered below it.
structure Place where
  document : Document
  levels : Nat
  node : Option Node

-- How many levels of collections may be entered. Nodes that nobody asks for do not
-- count.
def mostLevels : Nat := 128

def isTag (name : String) (tag : Option (List Char)) : Bool :=
  tag = some (standardAddress ++ name.toList)

-- The name in a tag of the document's own.
def localTag? : Option (List Char) → Option (List Char)
  | some ['!'] => some ['!']
  | some ('!' :: name) => some name
  | _ => none

-- A scalar read for what it is. A standard tag demands its type; any other kind of tag
-- and any kind of quotes make it text.
def scalarTree? (tag : Option (List Char)) (style : Style) (text : List Char) : Option Tree :=
  let ofPlain : Plain → Option Tree := fun plain =>
    match plain with
    | .null => some .null
    | .bool truth => some (.bool truth)
    | .int i => some (.int i)
    | .hugeInt => none
    | .float x => some (.float x)
    | .text => some (.text (String.ofList text))
  if (localTag? tag).isSome then none
  else if isTag "bool" tag then (truth? text).map .bool
  else if isTag "int" tag then (int? text).bind ofPlain
  else if isTag "float" tag then (float? text).map .float
  else if isTag "null" tag then (if isNullWord text then some .null else none)
  else if tag.isNone && style = .plain then ofPlain (resolve text)
  else some (.text (String.ofList text))

-- The node that an alias stands for. A document may follow a hundred aliases for each
-- of its events, so that small texts do not unfold without end.
def follow (document : Document) : Node → Reading Node
  | .reference target => fun count =>
      if 100 * document.size < count + 1 then none
      else (document.anchors.node? target).map fun node => (node, count + 1)
  | node => pure node

-- Everything below a node, `levels` of nesting at most.
def nodeTree (document : Document) : Nat → Node → Reading Tree
  | 0, node => do
      match ← follow document node with
      | .scalar tag style text => Reading.ofOption (scalarTree? tag style text)
      | _ => Reading.refuse
  | levels + 1, node => do
      match ← follow document node with
      | .scalar tag style text => Reading.ofOption (scalarTree? tag style text)
      | .sequence tag items =>
          if (localTag? tag).isSome then Reading.refuse
          else return .seq (← items.mapM (nodeTree document levels))
      | .mapping tag entries =>
          if (localTag? tag).isSome then Reading.refuse
          else
            return .map (← entries.mapM fun entry => do
              pure (← nodeTree document levels entry.1, ← nodeTree document levels entry.2))
      | .reference _ => Reading.refuse

-- Whether a scalar may be read for a type: it is plain, or a literal block tagged with
-- that type.
def readsAs (name : String) (tag : Option (List Char)) (style : Style) : Bool :=
  style = .plain || (style = .literal && isTag name tag)

namespace Place

def followed (place : Place) : Reading Place := do
  match place.node with
  | some node => return { place with node := some (← follow place.document node) }
  | none => pure place

def tree (place : Place) : Reading Tree :=
  match place.node with
  | some node => nodeTree place.document place.levels node
  | none => pure .null

def text (place : Place) : Reading String := do
  match (← place.followed).node with
  | some (.scalar _ _ text) => pure (String.ofList text)
  | _ => Reading.refuse

-- A scalar read for a type by the words of that type.
def scalar {α : Type} (name : String) (parse : List Char → Option α) (place : Place) :
    Reading α := do
  match (← place.followed).node with
  | some (.scalar tag style text) =>
      if readsAs name tag style then Reading.ofOption (parse text) else Reading.refuse
  | _ => Reading.refuse

def optional (place : Place) : Reading (Option Place) := do
  let place ← place.followed
  match place.node with
  | some (.scalar tag .plain text) =>
      if isTag "null" tag then (if isNullWord text then pure none else Reading.refuse)
      else if text.isEmpty || (tag.isNone && isNullWord text) then pure none
      else pure (some place)
  | some _ => pure (some place)
  | none => pure none

-- A plain scalar without text stands for a collection without members.
def isHollow : Option Node → Bool
  | none => true
  | some (.scalar _ style text) => style = .plain && text.isEmpty
  | _ => false

def items (place : Place) : Reading (List Place) := do
  let place ← place.followed
  if isHollow place.node then pure []
  else
    match place.levels, place.node with
    | levels + 1, some (.sequence _ items) =>
        pure (items.map fun item => { place with levels := levels, node := some item })
    | _, _ => Reading.refuse

-- The entries of a mapping whose keys are all scalars.
def entries (place : Place) : Reading (List (String × Place)) := do
  let place ← place.followed
  if isHollow place.node then pure []
  else
    match place.levels, place.node with
    | levels + 1, some (.mapping _ entries) =>
        entries.mapM fun entry => do
          let key ← text { place with levels := levels, node := some entry.1 }
          pure (key, { place with levels := levels, node := some entry.2 })
    | _, _ => Reading.refuse

-- A field may stand once; entries of other names are passed over.
def fields (names : List String) (place : Place) : Reading (List (Option Place)) := do
  let found ← place.entries
  names.mapM fun name =>
    match found.filter fun entry => entry.1 = name with
    | [] => pure none
    | [entry] => pure (some entry.2)
    | _ => Reading.refuse

-- The name of a case stands as a scalar, or as a tag on nothing.
def variant (place : Place) : Reading String := do
  match (← place.followed).node with
  | some (.scalar tag style text) =>
      match localTag? tag with
      | some name =>
          if style = .plain && (text.isEmpty || isNullWord text) then pure (String.ofList name)
          else Reading.refuse
      | none => pure (String.ofList text)
  | _ => Reading.refuse

end Place

instance : Source Place where
  tree := Place.tree
  text := Place.text
  natural := Place.scalar "int" (unsigned? (Nat.pow 2 64))
  single := Place.scalar "float" fun cs => (float? cs).map Binary.narrow
  truth := Place.scalar "bool" truth?
  optional := Place.optional
  items := Place.items
  fields := Place.fields
  entries := Place.entries
  variant := Place.variant

-- What a text says to a reader that knows what it expects.
def read? {α : Type} (reader : Place → Reading α) (text : String) : Option α := do
  let document ← document? text
  let (result, _) ← (reader ⟨document, mostLevels, document.root⟩).run 0
  pure result

end Dataflow.Yaml
