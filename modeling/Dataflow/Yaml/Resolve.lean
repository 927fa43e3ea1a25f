import Dataflow.Decimal.Nearest
import Dataflow.Uuid
import Dataflow.Yaml.Cursor

namespace Dataflow.Yaml

-- What a plain scalar means. An integer may be too large to be read as one.
inductive Plain where
  | null
  | bool (truth : Bool)
  | int (number : Int)
  | hugeInt
  | float (number : Float)
  | text
deriving DecidableEq

def nullWords : List (List Char) :=
  ["null", "Null", "NULL", "~"].map String.toList

def isNullWord (cs : List Char) : Bool :=
  nullWords.contains cs

def truth? (cs : List Char) : Option Bool :=
  if (["true", "True", "TRUE"].map String.toList).contains cs then some true
  else if (["false", "False", "FALSE"].map String.toList).contains cs then some false
  else none

-- Digits with a zero in front, with or without a sign, are no number.
def isZeroPadded (cs : List Char) : Bool :=
  let digits :=
    match cs with
    | '-' :: rest => rest
    | '+' :: rest => rest
    | _ => cs
  match digits with
  | '0' :: d :: rest => (d :: rest).all isDigit
  | _ => false

-- The number that digits of a base stand for; there must be one at least.
def natOf? (base : Nat) (cs : List Char) : Option Nat := do
  if cs.isEmpty then none
  else
    let digits ← cs.mapM Uuid.hexValue?
    if digits.all (· < base) then pure (digits.foldl (fun sum digit => base * sum + digit) 0)
    else none

-- A base by the letter after the zero that announces it.
def base? : Char → Option Nat
  | 'x' => some 16
  | 'o' => some 8
  | 'b' => some 2
  | _ => none

-- The digits after a base, where one is announced.
def basedNat? : List Char → Option Nat
  | '0' :: mark :: digits => (base? mark).bind fun base => natOf? base digits
  | _ => none

-- A whole number from zero up, below the limit: in a base or decimal, with a plus sign
-- or without.
def unsigned? (limit : Nat) (cs : List Char) : Option Nat :=
  let bare :=
    match cs with
    | '+' :: rest => rest
    | _ => cs
  let within := fun n : Nat => if n < limit then some n else none
  match (basedNat? bare).bind within with
  | some n => some n
  | none => if isZeroPadded cs then none else (natOf? 10 bare).bind within

-- A whole number after a minus sign, as its size, which may not exceed the limit.
def negative? (limit : Nat) : List Char → Option Nat
  | '-' :: bare =>
      let within := fun n : Nat => if n ≤ limit then some n else none
      match (basedNat? bare).bind within with
      | some n => some n
      | none => if isZeroPadded ('-' :: bare) then none else (natOf? 10 bare).bind within
  | _ => none

-- The parts of a decimal number without its sign: digits before and after the point and
-- the power of ten. Digits must stand on one side of the point at least.
def decimalParts? (cs : List Char) : Option (List Nat × Int) := do
  let value := fun c : Char => c.toNat - '0'.toNat
  let whole := cs.takeWhile isDigit
  let rest := cs.dropWhile isDigit
  let (fraction, rest) :=
    match rest with
    | '.' :: rest => (rest.takeWhile isDigit, rest.dropWhile isDigit)
    | _ => ([], rest)
  if whole.isEmpty && fraction.isEmpty then none
  else
    let power ←
      match rest with
      | [] => some 0
      | e :: rest =>
          if e = 'e' ∨ e = 'E' then
            match rest with
            | '-' :: digits => (natOf? 10 digits).map fun n => -(n : Int)
            | '+' :: digits => (natOf? 10 digits).map fun n => (n : Int)
            | digits => (natOf? 10 digits).map fun n => (n : Int)
          else none
    pure ((whole ++ fraction).map value, power - fraction.length)

-- A finite number with or without a sign.
def finite? (cs : List Char) : Option Float := do
  let (negative, bare) :=
    match cs with
    | '-' :: rest => (true, rest)
    | '+' :: rest => (false, rest)
    | _ => (false, cs)
  let (digits, exponent) ← decimalParts? bare
  let x := Binary.nearestDecimal negative digits exponent
  if x.isFinite then pure x else none

-- A floating-point number: a finite one, or one of the words for infinity and NaN.
def float? (cs : List Char) : Option Float :=
  let isWord := fun (words : List String) (cs : List Char) =>
    (words.map String.toList).contains cs
  let bare :=
    match cs with
    | '+' :: rest => rest
    | _ => cs
  if cs ≠ bare ∧ bare.head?.any (fun c => c = '+' || c = '-') then none
  else if isWord [".inf", ".Inf", ".INF"] bare then some (1.0 / 0.0)
  else if isWord ["-.inf", "-.Inf", "-.INF"] cs then some (-1.0 / 0.0)
  else if isWord [".nan", ".NaN", ".NAN"] cs then some (0.0 / 0.0)
  else finite? bare

-- An integer of 64 bits, or one of 128 bits that nobody can use.
def int? (cs : List Char) : Option Plain :=
  match unsigned? (Nat.pow 2 64) cs, negative? (Nat.pow 2 63) cs with
  | some n, _ => some (.int n)
  | none, some n => some (.int (-n))
  | none, none =>
      let isWide := (unsigned? (Nat.pow 2 128) cs).isSome || (negative? (Nat.pow 2 127) cs).isSome
      if isWide then some .hugeInt else none

def resolve (cs : List Char) : Plain :=
  if cs.isEmpty || isNullWord cs then .null
  else
    match truth? cs with
    | some truth => .bool truth
    | none =>
        match int? cs with
        | some number => number
        | none =>
            if isZeroPadded cs then .text
            else
              match float? cs with
              | some x => .float x
              | none => .text

end Dataflow.Yaml
