import Dataflow.Json.Numeral

namespace Dataflow

namespace Json

-- A piece of a string as it is written: a character, or a code unit given by its
-- number. Whether units pair up is asked only of strings that are read.
inductive Piece where
  | char (c : Char)
  | unit (code : Nat)
deriving DecidableEq, Inhabited

-- The characters of a written string. A high surrogate needs its low partner right
-- after it, and neither may stand alone.
def textOf? : List Piece → Option (List Char)
  | [] => some []
  | .char c :: rest => (textOf? rest).map (c :: ·)
  | [.unit code] =>
      if 0xD800 ≤ code ∧ code < 0xE000 then none else some [Char.ofNat code]
  | .unit code :: .char c :: rest =>
      if 0xD800 ≤ code ∧ code < 0xE000 then none
      else (textOf? rest).map fun cs => Char.ofNat code :: c :: cs
  | .unit code :: .unit next :: rest =>
      if 0xD800 ≤ code ∧ code < 0xDC00 then
        if 0xDC00 ≤ next ∧ next < 0xE000 then
          (textOf? rest).map
            (Char.ofNat (0x10000 + (code - 0xD800) * 0x400 + (next - 0xDC00)) :: ·)
        else none
      else if 0xDC00 ≤ code ∧ code < 0xE000 then none
      else (textOf? (.unit next :: rest)).map (Char.ofNat code :: ·)

end Json

-- A JSON text as it is written: numbers and strings are kept as spelled, members in
-- their order with repetitions.
inductive Json where
  | null
  | bool (truth : Bool)
  | number (numeral : Json.Numeral)
  | string (pieces : List Json.Piece)
  | array (items : List Json)
  | object (members : List (List Json.Piece × Json))
deriving Inhabited

end Dataflow
