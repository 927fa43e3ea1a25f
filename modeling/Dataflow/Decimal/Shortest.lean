import Dataflow.Decimal.Binary

namespace Dataflow

-- The significant digits of a decimal number and where its point stands: the number is
-- 0.d₁d₂… · 10 ^ point. There is at least one digit.
structure Decimal where
  digits : List Nat
  point : Int
deriving DecidableEq

namespace Decimal

-- The decimal digits of a whole number, most significant first.
def digitsOf (n : Nat) : List Nat :=
  (Nat.toDigits 10 n).map fun c => c.toNat - '0'.toNat

-- A whole number times a power of ten, without zeros at the end.
def ofScaled (n : Nat) (exponent : Int) : Decimal :=
  let ds := digitsOf n
  match (ds.reverse.dropWhile (· = 0)).reverse with
  | [] => ⟨[0], 1⟩
  | d :: rest => ⟨d :: rest, ds.length + exponent⟩

-- The power of ten of a quotient's leading digit.
def leadingPower (numerator denominator : Nat) : Int :=
  if denominator ≤ numerator then ((digitsOf (numerator / denominator)).length : Int) - 1
  else
    let places := (digitsOf (denominator / numerator)).length
    if numerator * Nat.pow 10 (places - 1) = denominator then 1 - (places : Int)
    else -(places : Int)

-- The numbers that round to one binary number, on a common denominator. The ends
-- belong to the range if the mantissa is even.
structure Range where
  low : Nat
  middle : Nat
  high : Nat
  denominator : Nat
  closed : Bool

-- The neighbour below is only half as far away where the mantissa is the least one.
def rangeOf (width : Width) (mantissa : Nat) (place : Int) : Range :=
  let below :=
    if mantissa = Nat.pow 2 (width.precision - 1) ∧ width.lastPlace < place then 1 else 2
  let scale := (Binary.scaled 1 (place - 2)).1
  ⟨(4 * mantissa - below) * scale, 4 * mantissa * scale, (4 * mantissa + 2) * scale,
    (Binary.scaled 1 (place - 2)).2, mantissa % 2 = 0⟩

-- The neighbours of the middle among the multiples of 10 ^ exponent, if one of them is
-- in the range: the nearer one, and of two equally near the one that `tieUp` and the
-- last digit choose.
def onGrid (tieUp : Bool) (range : Range) (exponent : Int) : Option Nat :=
  let factor := Nat.pow 10 (-exponent).toNat
  let unit := range.denominator * Nat.pow 10 exponent.toNat
  let low := range.low * factor
  let middle := range.middle * factor
  let high := range.high * factor
  let inside := fun n : Nat =>
    if range.closed then low ≤ n * unit ∧ n * unit ≤ high else low < n * unit ∧ n * unit < high
  let down := middle / unit
  let up := down + 1
  if inside down then
    if inside up then
      let downDistance := middle - down * unit
      let upDistance := up * unit - middle
      if downDistance < upDistance then some down
      else if upDistance < downDistance then some up
      else if tieUp ∨ down % 2 = 1 then some up
      else some down
    else some down
  else if inside up then some up
  else none

-- The first of the grids with `count`, `count` + 1, … digits that has a number in the
-- range; `fuel` is how many are tried.
def search (tieUp : Bool) (range : Range) (leading : Int) : Nat → Nat → Decimal
  | 0, _ => ofScaled (range.middle / range.denominator) 0
  | fuel + 1, count =>
      let exponent := leading + 1 - count
      match onGrid tieUp range exponent with
      | some n => ofScaled n exponent
      | none => search tieUp range leading fuel (count + 1)

-- The fewest digits that read back as the number, and of those the nearest to it.
-- Seventeen digits always suffice at double width.
def shortest (tieUp : Bool) (width : Width) (mantissa : Nat) (place : Int) : Decimal :=
  if mantissa = 0 then ⟨[0], 1⟩
  else
    let range := rangeOf width mantissa place
    search tieUp range (leadingPower range.middle range.denominator) 17 1

end Decimal

end Dataflow
