namespace Dataflow

-- A width of binary floating point: how many digits the mantissa has, the leading one
-- included, and how many bits hold the exponent.
structure Width where
  precision : Nat
  exponentBits : Nat

namespace Width

def double : Width := ⟨53, 11⟩

def single : Width := ⟨24, 8⟩

-- The place of the last digit of the smallest number above zero.
def lastPlace (width : Width) : Int :=
  3 - (Nat.pow 2 (width.exponentBits - 1) : Nat) - width.precision

-- The bits of infinity. Every finite number has smaller ones.
def infinity (width : Width) : Nat :=
  (Nat.pow 2 width.exponentBits - 1) * Nat.pow 2 (width.precision - 1)

def signBit (width : Width) : Nat :=
  Nat.pow 2 (width.exponentBits + width.precision - 1)

end Width

-- What a pattern of bits stands for; a finite number is mantissa · 2 ^ place.
inductive Binary where
  | finite (negative : Bool) (mantissa : Nat) (place : Int)
  | infinite (negative : Bool)
  | nan
deriving DecidableEq

namespace Binary

def ofBits (width : Width) (bits : Nat) : Binary :=
  let half := Nat.pow 2 (width.precision - 1)
  let negative := width.signBit ≤ bits
  let size := bits % width.signBit
  let fraction := size % half
  let step := size / half
  if size = width.infinity then infinite negative
  else if width.infinity < size then nan
  else if step = 0 then finite negative fraction width.lastPlace
  else finite negative (half + fraction) (width.lastPlace + (step - 1 : Nat))

def ofFloat (x : Float) : Binary :=
  ofBits .double x.toBits.toNat

def ofFloat32 (x : Float32) : Binary :=
  ofBits .single x.toBits.toNat

-- The quotient rounded to the nearest whole number, a half going to the even neighbour.
def roundHalfEven (numerator denominator : Nat) : Nat :=
  let quotient := numerator / denominator
  let twice := 2 * (numerator % denominator)
  if twice < denominator then quotient
  else if denominator < twice then quotient + 1
  else quotient + quotient % 2

-- A whole number times a power of two, as a quotient.
def scaled (n : Nat) (place : Int) : Nat × Nat :=
  if 0 ≤ place then (n * Nat.pow 2 place.toNat, 1) else (n, Nat.pow 2 (-place).toNat)

-- The bits of the number of this width nearest to a quotient, a half going to the even
-- neighbour and what is too large to infinity.
def nearestBits (width : Width) (numerator denominator : Nat) : Nat :=
  if numerator = 0 then 0
  else
    let guess : Int := (numerator.log2 : Int) - denominator.log2 - width.precision
    let (n, d) := scaled numerator (-guess)
    let place := if n < d * denominator * Nat.pow 2 width.precision then guess else guess + 1
    let place := max place width.lastPlace
    let (n, d) := scaled numerator (-place)
    let mantissa := roundHalfEven n (d * denominator)
    let steps := (place - width.lastPlace).toNat
    min width.infinity (steps * Nat.pow 2 (width.precision - 1) + mantissa)

def toBits (width : Width) : Binary → Nat
  | nan => width.infinity + Nat.pow 2 (width.precision - 2)
  | infinite negative => (if negative then width.signBit else 0) + width.infinity
  | finite negative mantissa place =>
      let (n, d) := scaled mantissa place
      (if negative then width.signBit else 0) + nearestBits width n d

def toFloat32 (binary : Binary) : Float32 :=
  Float32.ofBits (UInt32.ofNat (binary.toBits .single))

-- The nearest number of single width.
def narrow (x : Float) : Float32 :=
  (ofFloat x).toFloat32

-- The whole number that a finite number is, if it is one.
def toInt? : Binary → Option Int
  | finite negative mantissa place =>
      let (n, d) := scaled mantissa place
      if n % d = 0 then some (if negative then -(n / d : Nat) else (n / d : Nat)) else none
  | _ => none

-- The least whole number no smaller than a finite number, counting from zero up.
def ceiling? : Binary → Option Nat
  | finite negative mantissa place =>
      let (n, d) := scaled mantissa place
      some (if negative then 0 else (n + d - 1) / d)
  | _ => none

end Binary

end Dataflow
