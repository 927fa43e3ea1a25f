import Dataflow.Document.Tree
import Dataflow.Flags
import Dataflow.Properties

namespace Dataflow

-- Reading a document may be refused, for whatever reason. The number counts the
-- references that have been followed so far.
abbrev Reading (α : Type) := StateT Nat Option α

def Reading.refuse {α : Type} : Reading α :=
  fun _ => none

def Reading.ofOption {α : Type} (result : Option α) : Reading α :=
  fun count => result.map fun value => (value, count)

-- The places of a document, and what a reader that knows what it expects may ask of
-- one. Each format has its own rules for what it accepts as what.
class Source (place : Type) where
  -- everything below, by the look of it
  tree : place → Reading Tree
  text : place → Reading String
  -- a whole number of 64 bits, from zero up
  natural : place → Reading Nat
  -- a number, rounded to single width
  single : place → Reading Float32
  truth : place → Reading Bool
  -- nothing, or the place itself
  optional : place → Reading (Option place)
  items : place → Reading (List place)
  -- what stands under each of the named fields, if anything
  fields : List String → place → Reading (List (Option place))
  -- all keys with what stands under them, in the order of the document
  entries : place → Reading (List (String × place))
  -- the name of a case without contents
  variant : place → Reading String

namespace Source

variable {place : Type} [Source place]

def value (at_ : place) : Reading Value := do
  Reading.ofOption (← tree at_).toValue?

def nested (at_ : place) : Reading (Nested Value) := do
  Reading.ofOption (← tree at_).toNested?

def shape (at_ : place) : Reading Shape := do
  Reading.ofOption (← tree at_).toShape?

def list {α : Type} (item : place → Reading α) (at_ : place) : Reading (List α) := do
  (← items at_).mapM item

-- A field that must be there.
def required {α : Type} (read : place → Reading α) : Option place → Reading α
  | some at_ => read at_
  | none => Reading.refuse

-- A field that may be left out.
def orElse {α : Type} (absent : α) (read : place → Reading α) : Option place → Reading α
  | some at_ => read at_
  | none => pure absent

def ragged (at_ : place) : Reading Ragged := do
  match ← fields ["flat", "structure"] at_ with
  | [flat, inner] =>
      pure ⟨← required (list value) flat, ← required shape inner⟩
  | _ => Reading.refuse

-- The last entry of a key counts.
def properties (at_ : place) : Reading Properties := do
  let found ← (← entries at_).mapM fun entry => do
    pure (entry.1, ← nested entry.2)
  pure (Properties.ofList found)

def direction (at_ : place) : Reading Direction := do
  Reading.ofOption (Direction.ofName? (← variant at_))

def valueType (at_ : place) : Reading ValueType := do
  Reading.ofOption (ValueType.ofLabel? (← variant at_))

-- Flags are written as their bits; no more than eight may be given.
def flags (at_ : place) : Reading Flags := do
  let bits ← natural at_
  if bits < 256 then pure (Flags.ofBits bits) else Reading.refuse

def uuid (at_ : place) : Reading Uuid := do
  Reading.ofOption (Uuid.ofText? (← text at_))

end Source

end Dataflow
