import Dataflow.Json.Syntax
import Dataflow.Uuid

namespace Dataflow.Json

def isBlank (c : Char) : Bool :=
  c = ' ' || c = '\n' || c = '\t' || c = '\r'

def skipBlanks (cs : List Char) : List Char :=
  cs.dropWhile isBlank

def isDigit (c : Char) : Bool :=
  '0' ≤ c && c ≤ '9'

def digitValue (c : Char) : Nat :=
  c.toNat - '0'.toNat

-- The digits at the front, and what follows them.
def spanDigits (cs : List Char) : List Nat × List Char :=
  ((cs.takeWhile isDigit).map digitValue, cs.dropWhile isDigit)

-- At least one digit.
def someDigits (cs : List Char) : Option (List Nat × List Char) :=
  match spanDigits cs with
  | ([], _) => none
  | result => some result

-- Digits without a zero in front, unless zero is all there is.
def wholeDigits (cs : List Char) : Option (List Nat × List Char) :=
  match someDigits cs with
  | some (0 :: _ :: _, _) => none
  | result => result

def fractionDigits : List Char → Option (Option (List Nat) × List Char)
  | '.' :: cs => (someDigits cs).map fun (digits, rest) => (some digits, rest)
  | cs => some (none, cs)

def exponentDigits (cs : List Char) : Option (Option (Bool × List Nat) × List Char) :=
  match cs with
  | c :: cs' =>
      if c = 'e' ∨ c = 'E' then
        match cs' with
        | '+' :: digits => (someDigits digits).map fun (ds, rest) => (some (false, ds), rest)
        | '-' :: digits => (someDigits digits).map fun (ds, rest) => (some (true, ds), rest)
        | digits => (someDigits digits).map fun (ds, rest) => (some (false, ds), rest)
      else some (none, cs)
  | [] => some (none, [])

def parseNumeral (negative : Bool) (cs : List Char) : Option (Numeral × List Char) := do
  let (whole, cs) ← wholeDigits cs
  let (fraction, cs) ← fractionDigits cs
  let (exponent, cs) ← exponentDigits cs
  pure (⟨negative, whole, fraction, exponent⟩, cs)

-- The character after a backslash that stands for one character.
def simpleEscape? : Char → Option Char
  | '"' => some '"'
  | '\\' => some '\\'
  | '/' => some '/'
  | 'b' => some '\x08'
  | 'f' => some '\x0c'
  | 'n' => some '\n'
  | 'r' => some '\r'
  | 't' => some '\t'
  | _ => none

def hexUnit? (a b c d : Char) : Option Nat := do
  let a ← Uuid.hexValue? a
  let b ← Uuid.hexValue? b
  let c ← Uuid.hexValue? c
  let d ← Uuid.hexValue? d
  pure (((a * 16 + b) * 16 + c) * 16 + d)

-- The rest of a string up to its closing quote. Control characters may not stand in it.
def parsePieces (done : List Piece) : List Char → Option (List Piece × List Char)
  | [] => none
  | '"' :: rest => some (done.reverse, rest)
  | '\\' :: 'u' :: a :: b :: c :: d :: rest =>
      match hexUnit? a b c d with
      | some code => parsePieces (.unit code :: done) rest
      | none => none
  | '\\' :: c :: rest =>
      match simpleEscape? c with
      | some plain => parsePieces (.char plain :: done) rest
      | none => none
  | c :: rest => if c.toNat < 0x20 ∨ c = '\\' then none else parsePieces (.char c :: done) rest

-- What follows a fixed word.
def afterWord (word : List Char) (cs : List Char) : Option (List Char) :=
  if cs.take word.length = word then some (cs.drop word.length) else none

mutual
-- One value at the front of the text, and what follows it. `fuel` bounds the steps;
-- two for each character are enough.
def parseValue : Nat → List Char → Option (Json × List Char)
  | 0, _ => none
  | fuel + 1, cs =>
      match skipBlanks cs with
      | 'n' :: rest => (afterWord "ull".toList rest).map fun rest => (null, rest)
      | 't' :: rest => (afterWord "rue".toList rest).map fun rest => (bool true, rest)
      | 'f' :: rest => (afterWord "alse".toList rest).map fun rest => (bool false, rest)
      | '"' :: rest => (parsePieces [] rest).map fun (pieces, rest) => (string pieces, rest)
      | '[' :: rest =>
          match skipBlanks rest with
          | ']' :: rest => some (array [], rest)
          | rest => parseItems fuel [] rest
      | '\x7b' :: rest =>
          match skipBlanks rest with
          | '\x7d' :: rest => some (object [], rest)
          | rest => parseMembers fuel [] rest
      | '-' :: rest => (parseNumeral true rest).map fun (numeral, rest) => (number numeral, rest)
      | rest => (parseNumeral false rest).map fun (numeral, rest) => (number numeral, rest)

def parseItems : Nat → List Json → List Char → Option (Json × List Char)
  | 0, _, _ => none
  | fuel + 1, done, cs =>
      match parseValue fuel cs with
      | none => none
      | some (item, rest) =>
          match skipBlanks rest with
          | ',' :: rest => parseItems fuel (item :: done) rest
          | ']' :: rest => some (array (item :: done).reverse, rest)
          | _ => none

def parseMembers : Nat → List (List Piece × Json) → List Char → Option (Json × List Char)
  | 0, _, _ => none
  | fuel + 1, done, cs =>
      match skipBlanks cs with
      | '"' :: rest =>
          match parsePieces [] rest with
          | none => none
          | some (key, rest) =>
              match skipBlanks rest with
              | ':' :: rest =>
                  match parseValue fuel rest with
                  | none => none
                  | some (item, rest) =>
                      match skipBlanks rest with
                      | ',' :: rest => parseMembers fuel ((key, item) :: done) rest
                      | '\x7d' :: rest => some (object ((key, item) :: done).reverse, rest)
                      | _ => none
              | _ => none
      | _ => none
end

-- The one value that a text holds.
def parse? (text : String) : Option Json :=
  let cs := text.toList
  match parseValue (2 * cs.length + 2) cs with
  | some (value, rest) => if (skipBlanks rest).isEmpty then some value else none
  | none => none

end Dataflow.Json
