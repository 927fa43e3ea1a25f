namespace Dataflow

-- A name that keeps its meaning from one document to the next: 128 bits.
structure Uuid where
  bits : BitVec 128
deriving DecidableEq, Inhabited

namespace Uuid

def hexDigit (nibble : Nat) : Char :=
  if nibble < 10 then Char.ofNat ('0'.toNat + nibble) else Char.ofNat ('a'.toNat + (nibble - 10))

def hexValue? (c : Char) : Option Nat :=
  if '0' ≤ c ∧ c ≤ '9' then some (c.toNat - '0'.toNat)
  else if 'a' ≤ c ∧ c ≤ 'f' then some (c.toNat - 'a'.toNat + 10)
  else if 'A' ≤ c ∧ c ≤ 'F' then some (c.toNat - 'A'.toNat + 10)
  else none

-- A name made of random bits, marked as such in its thirteenth and seventeenth digits.
def ofRandom (bits : BitVec 128) : Uuid :=
  ⟨bits &&& ~~~(0xF000#128 <<< 64) &&& ~~~(0xC0#128 <<< 56) ||| (0x4000#128 <<< 64) |||
    (0x80#128 <<< 56)⟩

-- The 32 digits, most significant first.
def digits (uuid : Uuid) : List Char :=
  (List.range 32).map fun i => hexDigit (uuid.bits.toNat / Nat.pow 16 (31 - i) % 16)

-- Digits in groups of 8, 4, 4, 4 and 12 with a hyphen between them.
def chars (uuid : Uuid) : List Char :=
  let ds := uuid.digits
  ds.take 8 ++ '-' :: (ds.drop 8).take 4 ++ '-' :: (ds.drop 12).take 4 ++
    '-' :: (ds.drop 16).take 4 ++ '-' :: ds.drop 20

def toText (uuid : Uuid) : String :=
  String.ofList uuid.chars

instance : ToString Uuid := ⟨toText⟩

def ofDigits? (ds : List Char) : Option Uuid :=
  if ds.length = 32 then
    (ds.mapM hexValue?).map fun nibbles =>
      ⟨BitVec.ofNat 128 (nibbles.foldl (fun sum nibble => 16 * sum + nibble) 0)⟩
  else
    none

-- The hyphens must stand between the groups and nowhere else.
def ofGroups? (cs : List Char) : Option Uuid :=
  let hyphens := [8, 13, 18, 23]
  if cs.length = 36 ∧ hyphens.all fun i => cs[i]? = some '-' then
    ofDigits? ((cs.take 8 ++ (cs.drop 9).take 4 ++ (cs.drop 14).take 4 ++
      (cs.drop 19).take 4 ++ cs.drop 24))
  else
    none

-- Four spellings are read: digits alone, groups with hyphens, groups in braces, and
-- groups after `urn:uuid:`. Digits may be of either case.
def ofChars? (cs : List Char) : Option Uuid :=
  match cs.length with
  | 32 => ofDigits? cs
  | 36 => ofGroups? cs
  | 38 =>
      if cs.head? = some '\x7b' ∧ cs.getLast? = some '\x7d' then ofGroups? ((cs.drop 1).take 36)
      else none
  | 45 => if cs.take 9 = "urn:uuid:".toList then ofGroups? (cs.drop 9) else none
  | _ => none

def ofText? (text : String) : Option Uuid :=
  ofChars? text.toList

end Uuid

end Dataflow
