import Dataflow.Decimal.Shortest

namespace Dataflow

-- How a number is laid out as text. A number is written out in place if its point
-- lies above `lowest` and not above `highest`, where these are given, and with an
-- exponent otherwise.
structure Layout where
  tieUp : Bool
  lowest : Option Int
  highest : Option Int
  whole : String
  plus : String
  nan : String
  infinity : String
  minusInfinity : String

namespace Layout

def digitChar (digit : Nat) : Char :=
  Char.ofNat ('0'.toNat + digit)

def digitChars (digits : List Nat) : List Char :=
  digits.map digitChar

def isPositional (layout : Layout) (point : Int) : Bool :=
  layout.lowest.all (· < point) && layout.highest.all (point ≤ ·)

-- The digits with the point among them, zeros filling up to it.
def positional (layout : Layout) (decimal : Decimal) : List Char :=
  let digits := digitChars decimal.digits
  if decimal.point ≤ 0 then
    '0' :: '.' :: List.replicate (-decimal.point).toNat '0' ++ digits
  else
    let before := decimal.point.toNat
    if digits.length ≤ before then
      digits ++ List.replicate (before - digits.length) '0' ++ layout.whole.toList
    else
      digits.take before ++ '.' :: digits.drop before

-- One digit before the point, the others after it, and the power of ten.
def scientific (layout : Layout) (decimal : Decimal) : List Char :=
  let digits := digitChars decimal.digits
  let exponent := decimal.point - 1
  let power :=
    if exponent < 0 then '-' :: digitChars (Decimal.digitsOf exponent.natAbs)
    else layout.plus.toList ++ digitChars (Decimal.digitsOf exponent.natAbs)
  match digits with
  | [] => 'e' :: power
  | [only] => only :: 'e' :: power
  | first :: rest => first :: '.' :: rest ++ 'e' :: power

def write (layout : Layout) (width : Width) : Binary → List Char
  | .nan => layout.nan.toList
  | .infinite negative => (if negative then layout.minusInfinity else layout.infinity).toList
  | .finite negative mantissa place =>
      let decimal := Decimal.shortest layout.tieUp width mantissa place
      let text :=
        if layout.isPositional decimal.point then layout.positional decimal
        else layout.scientific decimal
      if negative then '-' :: text else text

def writeFloat (layout : Layout) (x : Float) : String :=
  String.ofList (layout.write .double (Binary.ofFloat x))

def writeFloat32 (layout : Layout) (x : Float32) : String :=
  String.ofList (layout.write .single (Binary.ofFloat32 x))

-- Numbers in messages and results: written out in place whatever their size, a whole
-- number without a point.
def plain : Layout where
  tieUp := true
  lowest := none
  highest := none
  whole := ""
  plus := ""
  nan := "NaN"
  infinity := "inf"
  minusInfinity := "-inf"

end Layout

end Dataflow
