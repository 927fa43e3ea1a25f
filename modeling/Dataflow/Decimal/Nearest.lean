import Dataflow.Decimal.Binary

namespace Dataflow.Binary

-- The bits of the number of double width nearest to digits · 10 ^ exponent. Powers so
-- large or so small that the outcome is settled are not worked out.
def nearestDecimalBits (digits : List Nat) (exponent : Int) : Nat :=
  let significant := digits.dropWhile (· = 0)
  let size : Int := significant.length + exponent
  if significant.isEmpty ∨ size < -400 then 0
  else if 400 < size then Width.double.infinity
  else
    let n := significant.foldl (fun sum digit => 10 * sum + digit) 0
    nearestBits .double (n * Nat.pow 10 exponent.toNat) (Nat.pow 10 (-exponent).toNat)

-- The same as a number with a sign.
def nearestDecimal (negative : Bool) (digits : List Nat) (exponent : Int) : Float :=
  Float.ofBits (UInt64.ofNat
    ((if negative then Width.double.signBit else 0) + nearestDecimalBits digits exponent))

end Dataflow.Binary
