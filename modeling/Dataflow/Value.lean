import Dataflow.Nested

namespace Dataflow

-- A place in space, opaque to the engine.
structure Point where
  x : Float
  y : Float
  z : Float
deriving DecidableEq, BEq

-- One payload value. The derived `==` compares numbers as numbers: zero equals minus
-- zero and a NaN equals nothing. Logical equality tells them apart by their bits.
inductive Value where
  | null
  | bool (truth : Bool)
  | int (number : Int64)
  | number (number : Float)
  | text (text : String)
  | point (point : Point)
deriving DecidableEq, BEq, Inhabited

-- The declared payload of a port.
inductive ValueType where
  | any
  | null
  | bool
  | int
  | number
  | text
  | point
deriving DecidableEq, BEq, Inhabited

namespace ValueType

def all : List ValueType :=
  [any, null, bool, int, number, text, point]

-- The name shown in messages.
def name : ValueType → String
  | any => "any"
  | null => "null"
  | bool => "bool"
  | int => "int"
  | number => "number"
  | text => "text"
  | point => "point"

-- The name written in documents.
def label : ValueType → String
  | any => "Any"
  | null => "Null"
  | bool => "Bool"
  | int => "Int"
  | number => "Number"
  | text => "Text"
  | point => "Point"

def ofLabel? (label : String) : Option ValueType :=
  all.find? fun type => type.label = label

def isNumeric : ValueType → Bool
  | bool | int | number => true
  | _ => false

-- Whether a value of the first type may feed a port of the second: `any` matches
-- everything, and the numeric types stand in for one another.
def feeds (source target : ValueType) : Bool :=
  source == target || source == any || target == any || (source.isNumeric && target.isNumeric)

end ValueType

namespace Value

def type : Value → ValueType
  | null => .null
  | bool _ => .bool
  | int _ => .int
  | number _ => .number
  | text _ => .text
  | point _ => .point

-- The value as a number, a truth value counting as one or zero.
def toFloat? : Value → Option Float
  | bool truth => some (if truth then 1 else 0)
  | int i => some (Float.ofInt i.toInt)
  | number x => some x
  | _ => none

def toPoint? : Value → Option Point
  | point p => some p
  | _ => none

end Value

end Dataflow
