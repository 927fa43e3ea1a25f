import Dataflow.Document.Source
import Dataflow.Json.Parser

namespace Dataflow.Json

-- A value with the number of levels that may still be entered below it.
structure Place where
  levels : Nat
  value : Json

-- How many levels of arrays and objects may be entered. Values that nobody asks for
-- do not count.
def mostLevels : Nat := 127

def text? (pieces : List Piece) : Option String :=
  (textOf? pieces).map String.ofList

mutual
-- Everything below a value, `levels` of nesting at most.
def toTree? : Nat → Json → Option Tree
  | _, null => some .null
  | _, bool truth => some (.bool truth)
  | _, number numeral =>
      match numeral.toInt? with
      | some i => some (.int i)
      | none => numeral.toFloat?.map .float
  | _, string pieces => (text? pieces).map .text
  | 0, array _ => none
  | levels + 1, array items => (toTreeAll? levels items).map .seq
  | 0, object _ => none
  | levels + 1, object members => (toTreeFields? levels members).map .map

def toTreeAll? (levels : Nat) : List Json → Option (List Tree)
  | [] => some []
  | item :: rest =>
      match toTree? levels item, toTreeAll? levels rest with
      | some tree, some others => some (tree :: others)
      | _, _ => none

def toTreeFields? (levels : Nat) : List (List Piece × Json) → Option (List (Tree × Tree))
  | [] => some []
  | (key, value) :: rest =>
      match text? key, toTree? levels value, toTreeFields? levels rest with
      | some key, some tree, some others => some ((.text key, tree) :: others)
      | _, _, _ => none
end

namespace Place

def tree (place : Place) : Reading Tree :=
  Reading.ofOption (toTree? place.levels place.value)

def text (place : Place) : Reading String :=
  match place.value with
  | .string pieces => Reading.ofOption (text? pieces)
  | _ => Reading.refuse

def natural (place : Place) : Reading Nat :=
  match place.value with
  | .number numeral =>
      match numeral.toInt? with
      | some (.ofNat n) => pure n
      | _ => Reading.refuse
  | _ => Reading.refuse

-- A whole number is rounded once, any other by way of its double width.
def single (place : Place) : Reading Float32 :=
  match place.value with
  | .number numeral =>
      match numeral.toInt? with
      | some i => pure (Binary.finite (i < 0) i.natAbs 0).toFloat32
      | none => Reading.ofOption (numeral.toFloat?.map Binary.narrow)
  | _ => Reading.refuse

def truth (place : Place) : Reading Bool :=
  match place.value with
  | .bool truth => pure truth
  | _ => Reading.refuse

def optional (place : Place) : Reading (Option Place) :=
  match place.value with
  | .null => pure none
  | _ => pure (some place)

def items (place : Place) : Reading (List Place) :=
  match place.levels, place.value with
  | levels + 1, .array items => pure (items.map fun item => ⟨levels, item⟩)
  | _, _ => Reading.refuse

-- The members of an object whose keys can all be read.
def members (place : Place) : Reading (List (String × Place)) :=
  match place.levels, place.value with
  | levels + 1, .object members =>
      members.mapM fun (key, value) => do
        pure (← Reading.ofOption (text? key), ⟨levels, value⟩)
  | _, _ => Reading.refuse

-- A record is an object, in which a field may stand once and others are passed over,
-- or an array of the first fields in order.
def fields (names : List String) (place : Place) : Reading (List (Option Place)) := do
  match place.value with
  | .array _ =>
      let found ← place.items
      if found.length ≤ names.length then
        pure (found.map some ++ List.replicate (names.length - found.length) none)
      else
        Reading.refuse
  | _ =>
      let found ← place.members
      names.mapM fun name =>
        match found.filter fun member => member.1 = name with
        | [] => pure none
        | [member] => pure (some member.2)
        | _ => Reading.refuse

-- The name of a case stands alone, or as the one key of an object over null.
def variant (place : Place) : Reading String := do
  match place.value with
  | .object _ =>
      match ← place.members with
      | [(name, inner)] =>
          match inner.value with
          | .null => pure name
          | _ => Reading.refuse
      | _ => Reading.refuse
  | _ => place.text

end Place

instance : Source Place where
  tree := Place.tree
  text := Place.text
  natural := Place.natural
  single := Place.single
  truth := Place.truth
  optional := Place.optional
  items := Place.items
  fields := Place.fields
  entries := Place.members
  variant := Place.variant

-- What a text says to a reader that knows what it expects.
def read? {α : Type} (reader : Place → Reading α) (text : String) : Option α := do
  let value ← parse? text
  let (result, _) ← (reader ⟨mostLevels, value⟩).run 0
  pure result

end Dataflow.Json
