import Dataflow.Decimal.Binary

namespace Dataflow

namespace Json

-- A number as it is written: digits before and after the point, and the power of ten
-- with its sign.
structure Numeral where
  negative : Bool
  whole : List Nat
  fraction : Option (List Nat)
  exponent : Option (Bool × List Nat)
deriving DecidableEq, Inhabited

namespace Numeral

-- The largest significand that is kept exactly.
def mostSignificand : Nat := Nat.pow 2 64 - 1

def mostExponent : Int := Nat.pow 2 31 - 1

-- Digits are taken into the significand while it fits; the rest is left over.
def takeDigits (significand : Nat) : List Nat → Nat × List Nat
  | [] => (significand, [])
  | digit :: rest =>
      if mostSignificand < 10 * significand + digit then (significand, digit :: rest)
      else takeDigits (10 * significand + digit) rest

-- A power of ten that is itself a finite number of double width.
def powerOfTen (exponent : Nat) : Float :=
  Float.ofBits (UInt64.ofNat (Binary.nearestBits .double (Nat.pow 10 exponent) 1))

-- The significand times a power of ten, by one multiplication or by divisions of at
-- most 10 ^ 308 each. What grows past the largest number is refused. `fuel` bounds the
-- divisions: after three of them nothing but zero is left.
def scale : Nat → Float → Int → Option Float
  | 0, _, _ => some 0
  | fuel + 1, x, exponent =>
      if exponent.natAbs ≤ 308 then
        if 0 ≤ exponent then
          let product := x * powerOfTen exponent.natAbs
          if product.isInf then none else some product
        else
          some (x / powerOfTen exponent.natAbs)
      else if x == 0 then some x
      else if 0 ≤ exponent then none
      else scale fuel (x / powerOfTen 308) (exponent + 308)

def signed (numeral : Numeral) (x : Float) : Float :=
  if numeral.negative then -x else x

-- The written power of ten, `none` when it does not fit 32 bits.
def writtenExponent (digits : List Nat) : Option Int :=
  let size : Nat := digits.foldl (fun sum digit => 10 * sum + digit) 0
  if (size : Int) ≤ mostExponent then some (size : Int) else none

def ofParts (numeral : Numeral) (significand : Nat) (exponent : Int) : Option Float :=
  let x := Float.ofNat significand
  match numeral.exponent with
  | none => (scale 8 x exponent).map numeral.signed
  | some (negative, digits) =>
      match writtenExponent digits with
      | none =>
          if significand ≠ 0 ∧ !negative then none else some (numeral.signed 0)
      | some size =>
          let total := if negative then exponent - size else exponent + size
          let total := max (-mostExponent - 1) (min mostExponent total)
          (scale 8 x total).map numeral.signed

-- The number as a floating-point number. Whole digits that do not fit only raise the
-- power of ten, and digits after the point that do not fit are dropped.
def toFloat? (numeral : Numeral) : Option Float :=
  let (significand, long) := takeDigits 0 numeral.whole
  let (significand, left) := takeDigits significand (numeral.fraction.getD [])
  let taken := (numeral.fraction.getD []).length - left.length
  numeral.ofParts significand ((long.length : Int) - taken)

def isWhole (numeral : Numeral) : Bool :=
  numeral.fraction.isNone && numeral.exponent.isNone

-- The number as an integer, if it is written as one and fits 64 bits with or without
-- a sign. Minus zero is no integer.
def toInt? (numeral : Numeral) : Option Int :=
  if numeral.isWhole then
    match takeDigits 0 numeral.whole with
    | (significand, []) =>
        if !numeral.negative then some significand
        else if significand ≠ 0 ∧ significand ≤ Nat.pow 2 63 then some (-(significand : Int))
        else none
    | _ => none
  else
    none

end Numeral

end Json

end Dataflow
