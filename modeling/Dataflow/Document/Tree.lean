import Dataflow.Ragged

namespace Dataflow

-- What a document says, whatever the format it is written in. `single` is a number of
-- single width: positions are written so, and it reads back as a `float`. Keys are
-- trees too, since not every format insists on text.
inductive Tree where
  | null
  | bool (truth : Bool)
  | int (number : Int)
  | float (number : Float)
  | single (number : Float32)
  | text (text : String)
  | seq (items : List Tree)
  | map (fields : List (Tree × Tree))
deriving Inhabited

namespace Tree

-- A map with text for keys, in the given order.
def record (fields : List (String × Tree)) : Tree :=
  map (fields.map fun field => (text field.1, field.2))

-- A number of either kind as a floating-point number.
def toFloat? : Tree → Option Float
  | int i => some (Float.ofInt i)
  | float x => some x
  | _ => none

-- Which coordinate a key stands for: by its letter or by its place.
def coordinate? : Tree → Option Nat
  | text "x" => some 0
  | text "y" => some 1
  | text "z" => some 2
  | int 0 => some 0
  | int 1 => some 1
  | int 2 => some 2
  | _ => none

-- The numbers under the coordinates, refused if a key is no coordinate or a value no
-- number.
def coordinates? : List (Tree × Tree) → Option (List (Nat × Float))
  | [] => some []
  | (key, value) :: rest => do
      let axis ← key.coordinate?
      let number ← value.toFloat?
      let others ← coordinates? rest
      pure ((axis, number) :: others)

-- A point is a map of exactly x, y and z, or a list of exactly three numbers.
def toPoint? : Tree → Option Point
  | seq [a, b, c] => do
      pure ⟨← a.toFloat?, ← b.toFloat?, ← c.toFloat?⟩
  | map fields => do
      let axes ← coordinates? fields
      if axes.length = 3 then
        pure ⟨← axes.lookup 0, ← axes.lookup 1, ← axes.lookup 2⟩
      else
        none
  | _ => none

-- The first kind of value that a tree can be taken for. Whole numbers past the
-- integers become floating-point numbers.
def toValue? : Tree → Option Value
  | null => some .null
  | bool truth => some (.bool truth)
  | int i =>
      if Int64.minValue.toInt ≤ i ∧ i ≤ Int64.maxValue.toInt then some (.int (Int64.ofInt i))
      else some (.number (Float.ofInt i))
  | float x => some (.number x)
  | single _ => none
  | text s => some (.text s)
  | tree => tree.toPoint?.map .point

mutual
-- A value where the tree can be taken for one, a list of nested values otherwise.
def toNested? : Tree → Option (Nested Value)
  | seq items =>
      match (seq items).toValue? with
      | some value => some (.leaf value)
      | none => (toNestedAll? items).map .list
  | tree => tree.toValue?.map .leaf

def toNestedAll? : List Tree → Option (List (Nested Value))
  | [] => some []
  | item :: rest =>
      match toNested? item, toNestedAll? rest with
      | some nested, some others => some (nested :: others)
      | _, _ => none
end

mutual
-- Leaves of a shape are whole numbers of 64 bits.
def toShape? : Tree → Option Shape
  | int i => if 0 ≤ i ∧ i < Nat.pow 2 64 then some (.leaf i.toNat) else none
  | seq items => (toShapeAll? items).map .list
  | _ => none

def toShapeAll? : List Tree → Option (List Shape)
  | [] => some []
  | item :: rest =>
      match toShape? item, toShapeAll? rest with
      | some shape, some others => some (shape :: others)
      | _, _ => none
end

def ofValue : Value → Tree
  | .null => null
  | .bool truth => bool truth
  | .int i => int i.toInt
  | .number x => float x
  | .text s => text s
  | .point p => record [("x", float p.x), ("y", float p.y), ("z", float p.z)]

mutual
def ofNested {α : Type} (leafTree : α → Tree) : Nested α → Tree
  | .leaf value => leafTree value
  | .list children => seq (ofNestedAll leafTree [] children)

def ofNestedAll {α : Type} (leafTree : α → Tree) (done : List Tree) :
    List (Nested α) → List Tree
  | [] => done.reverse
  | child :: rest => ofNestedAll leafTree (ofNested leafTree child :: done) rest
end

def ofNestedValue : Nested Value → Tree :=
  ofNested ofValue

def ofShape : Shape → Tree :=
  ofNested fun leaf => int leaf

def ofRagged (ragged : Ragged) : Tree :=
  record [("flat", seq (ragged.flat.map ofValue)), ("structure", ofShape ragged.shape)]

end Tree

end Dataflow
