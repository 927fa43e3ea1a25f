import Dataflow.Json.Place
import Dataflow.Json.Printer
import Dataflow.Proofs.Digits

namespace Dataflow.Json

-- How the reader takes a character that was written in a string: control characters
-- without a letter of their own are given by their number.
def piece (c : Char) : Piece :=
  if c.toNat < 0x20 ∧ ¬(c = '\x08' ∨ c = '\x0c' ∨ c = '\n' ∨ c = '\r' ∨ c = '\t') then
    .unit c.toNat
  else
    .char c

theorem textOf?_unit {code : Nat} (h : code < 0xD800) (rest : List Piece) :
    textOf? (.unit code :: rest) = (textOf? rest).map (Char.ofNat code :: ·) := by
  have hlone : ¬(0xD800 ≤ code ∧ code < 0xE000) := by omega
  have hhigh : ¬(0xD800 ≤ code ∧ code < 0xDC00) := by omega
  have hlow : ¬(0xDC00 ≤ code ∧ code < 0xE000) := by omega
  match rest with
  | [] => simp only [textOf?, hlone, if_false, Option.map_some]
  | .char c :: rest =>
      simp only [textOf?, hlone, if_false, Option.map_map]
      rfl
  | .unit next :: rest => rw [textOf?, if_neg hhigh, if_neg hlow]

theorem textOf?_pieces (cs : List Char) : textOf? (cs.map piece) = some cs := by
  induction cs with
  | nil => rfl
  | cons c rest ih =>
      rw [List.map_cons, piece]
      split
      case isTrue h =>
        rw [textOf?_unit (by omega), ih, Option.map_some, Char.ofNat_toNat]
      case isFalse => rw [textOf?, ih, Option.map_some]

theorem text?_pieces (text : String) : text? (text.toList.map piece) = some text := by
  rw [text?, textOf?_pieces, Option.map_some, String.ofList_toList]

theorem parsePieces_plain {c : Char} (hquote : c ≠ '"') (hslash : c ≠ '\\')
    (hcontrol : ¬ c.toNat < 0x20) (done : List Piece) (rest : List Char) :
    parsePieces done (c :: rest) = parsePieces (.char c :: done) rest := by
  rw [parsePieces.eq_def]
  split
  case h_1 h => cases h
  case h_2 h => exact absurd (List.cons.inj h).1 hquote
  case h_3 h => exact absurd (List.cons.inj h).1 hslash
  case h_4 h => exact absurd (List.cons.inj h).1 hslash
  case h_5 h =>
    obtain ⟨rfl, rfl⟩ := List.cons.inj h
    exact if_neg fun hor => hor.elim hcontrol hslash

theorem parsePieces_unit {a b : Char} {code : Nat} (h : hexUnit? '0' '0' a b = some code)
    (done : List Piece) (rest : List Char) :
    parsePieces done ('\\' :: 'u' :: '0' :: '0' :: a :: b :: rest) =
      parsePieces (.unit code :: done) rest := by
  rw [parsePieces, h]

theorem hexUnit?_digits {a b : Nat} (ha : a < 16) (hb : b < 16) :
    hexUnit? '0' '0' a.digitChar b.digitChar = some (16 * a + b) := by
  have hzero : Uuid.hexValue? '0' = some 0 := by decide
  simp only [hexUnit?, Uuid.hexValue?_digitChar ha, Uuid.hexValue?_digitChar hb, hzero]
  exact congrArg some (by omega)

theorem parsePieces_escapeChar (c : Char) (done : List Piece) (rest : List Char) :
    parsePieces done (escapeChar c ++ rest) = parsePieces (piece c :: done) rest := by
  by_cases hshort : c = '"' ∨ c = '\\' ∨ c = '\x08' ∨ c = '\x0c' ∨ c = '\n' ∨ c = '\r' ∨ c = '\t'
  · rcases hshort with rfl | rfl | rfl | rfl | rfl | rfl | rfl <;> rfl
  · simp only [not_or] at hshort
    obtain ⟨hquote, hslash, hb, hf, hn, hr, ht⟩ := hshort
    simp only [escapeChar, hquote, hslash, hb, hf, hn, hr, ht, if_false]
    by_cases hcontrol : c.toNat < 0x20
    · have hpiece : piece c = .unit c.toNat :=
        if_pos ⟨hcontrol, fun h => by rcases h with h | h | h | h | h <;> contradiction⟩
      rw [if_pos hcontrol, hpiece]
      by_cases hsmall : c.toNat < 0x10
      · rw [if_pos hsmall, Text.hexDigits, Nat.toDigits_of_lt_base hsmall]
        have hunit := hexUnit?_digits (show 0 < 16 by decide) hsmall
        rw [Nat.mul_zero, Nat.zero_add] at hunit
        exact parsePieces_unit hunit done rest
      · have hone : c.toNat / 16 = 1 := by omega
        rw [if_neg hsmall, Text.hexDigits, Nat.toDigits_of_base_le (by decide) (by omega), hone,
          Nat.toDigits_of_lt_base (by decide)]
        have hlow := Nat.mod_lt c.toNat (show 0 < 16 by decide)
        have hunit := hexUnit?_digits (show 1 < 16 by decide) hlow
        rw [show 16 * 1 + c.toNat % 16 = c.toNat by omega] at hunit
        exact parsePieces_unit hunit done rest
    · have hpiece : piece c = .char c := if_neg fun h => hcontrol h.1
      rw [if_neg hcontrol, hpiece]
      exact parsePieces_plain hquote hslash hcontrol done rest

-- A quoted text is read up to its closing quote.
theorem parsePieces_escaped (cs : List Char) (done : List Piece) (rest : List Char) :
    parsePieces done (cs.flatMap escapeChar ++ '"' :: rest) =
      some (done.reverse ++ cs.map piece, rest) := by
  induction cs generalizing done with
  | nil => rw [List.flatMap_nil, List.nil_append, parsePieces, List.map_nil, List.append_nil]
  | cons c cs ih =>
      rw [List.flatMap_cons, List.append_assoc, parsePieces_escapeChar, ih, List.reverse_cons,
        List.append_assoc, List.map_cons, List.singleton_append]

end Dataflow.Json
