import Dataflow.Proofs.Digits
import Dataflow.Yaml.Printer

namespace Dataflow.Yaml

theorem isValid_toNat (c : Char) :
    c.toNat ≤ 0x10FFFF ∧ ¬(0xD800 ≤ c.toNat ∧ c.toNat ≤ 0xDFFF) := by
  have h : c.toNat < 0xD800 ∨ 0xDFFF < c.toNat ∧ c.toNat < 0x110000 := c.valid
  omega

section Padded

variable {width n : Nat}

theorem length_paddedHex (hw : 0 < width) (h : n < 16 ^ width) :
    (paddedHex width n).length = width := by
  have hlength := (Nat.length_toDigits_le_iff (by decide : 1 < 16) hw).mpr h
  simp only [paddedHex, Text.hexDigits, List.length_append, List.length_replicate,
    List.length_map]
  omega

-- Zeros in front add nothing.
theorem ofDigits_zeros (base count : Nat) (digits : List Nat) :
    ofDigits base (List.replicate count 0 ++ digits) = ofDigits base digits := by
  induction count with
  | zero => rfl
  | succ count ih =>
      rw [List.replicate_succ, List.cons_append, ofDigits, List.foldl_cons]
      exact ih

theorem exists_nibbles_paddedHex (width n : Nat) :
    ∃ nibbles, (paddedHex width n).mapM Uuid.hexValue? = some nibbles ∧
      ofDigits 16 nibbles = n := by
  obtain ⟨digits, heq, hlt, hsum, -, -⟩ := exists_digits (by decide : 1 < 16) n
  have hall : ∀ d < 16, Uuid.hexValue? d.digitChar.toUpper = some d := by decide
  have hzeros : (List.replicate (width - digits.length) '0').mapM Uuid.hexValue? =
      some ((List.replicate (width - digits.length) '0').map fun _ => 0) :=
    mapM_eq_pure _ fun c hc => by rw [List.eq_of_mem_replicate hc]; rfl
  have hdigits : (digits.map fun d => d.digitChar.toUpper).mapM Uuid.hexValue? =
      some (digits.map id) := mapM_map_eq_pure digits fun d hd => hall d (hlt d hd)
  have hpadded : paddedHex width n =
      List.replicate (width - digits.length) '0' ++ digits.map fun d => d.digitChar.toUpper := by
    simp only [paddedHex, Text.hexDigits, heq, List.map_map, List.length_map]
    rfl
  refine ⟨List.replicate (width - digits.length) 0 ++ digits, ?_, ?_⟩
  · rw [hpadded, List.mapM_append, hzeros, hdigits, List.map_id, List.map_replicate]
    rfl
  · rw [ofDigits_zeros, hsum]

theorem numberedChar?_paddedHex (hw : 0 < width) (c : Char) (h : c.toNat < 16 ^ width) :
    numberedChar? width (paddedHex width c.toNat) = some c := by
  obtain ⟨nibbles, hnibbles, hsum⟩ := exists_nibbles_paddedHex width c.toNat
  obtain ⟨hmost, hsurrogate⟩ := isValid_toNat c
  have hfold : nibbles.foldl (fun sum nibble => 16 * sum + nibble) 0 = c.toNat := hsum
  simp only [numberedChar?, hnibbles, Option.bind_eq_bind, Option.bind_some, hfold]
  rw [if_pos ⟨length_paddedHex hw h, hmost, hsurrogate⟩, Char.ofNat_toNat]
  rfl

end Padded

-- What is read for a letter after a backslash is what the letter was written for.
theorem simpleEscape?_of_escapeLetter? {c letter : Char} (h : escapeLetter? c = some letter) :
    simpleEscape? letter = some c ∧ escapeWidth? letter = none ∧ isBreak letter = false := by
  rw [escapeLetter?.eq_def] at h
  split at h <;> cases h <;> decide

-- A character is escaped by a letter of its own or by its number.
theorem escaped_cases (c : Char) :
    (∃ letter, escaped c = ['\\', letter] ∧ simpleEscape? letter = some c ∧
      escapeWidth? letter = none ∧ isBreak letter = false) ∨
    ∃ mark width, escaped c = '\\' :: mark :: paddedHex width c.toNat ∧
      escapeWidth? mark = some width ∧ isBreak mark = false ∧ 0 < width ∧
      c.toNat < 16 ^ width := by
  rw [escaped]
  cases hletter : escapeLetter? c with
  | some letter => exact .inl ⟨letter, rfl, simpleEscape?_of_escapeLetter? hletter⟩
  | none =>
      have hmost := (isValid_toNat c).1
      simp only []
      split
      · exact .inr ⟨'x', 2, rfl, rfl, rfl, by decide, by omega⟩
      · split
        · exact .inr ⟨'u', 4, rfl, rfl, rfl, by decide, by omega⟩
        · exact .inr ⟨'U', 8, rfl, rfl, rfl, by decide, by omega⟩

theorem isBreak_of_mem_paddedHex {width n : Nat} {d : Char} (h : d ∈ paddedHex width n) :
    isBreak d = false := by
  obtain ⟨digits, heq, hlt, -, -, -⟩ := exists_digits (by decide : 1 < 16) n
  have hall : ∀ k < 16, isBreak k.digitChar.toUpper = false := by decide
  simp only [paddedHex, Text.hexDigits, heq, List.map_map, List.mem_append, List.mem_map] at h
  rcases h with hzero | ⟨k, hk, rfl⟩
  · rw [List.eq_of_mem_replicate hzero]
    rfl
  · exact hall k (hlt k hk)

theorem isBreak_of_mem_escaped {c d : Char} (h : d ∈ escaped c) : isBreak d = false := by
  rcases escaped_cases c with ⟨letter, heq, -, -, hbreak⟩ | ⟨mark, width, heq, -, hbreak, -, -⟩
  · rw [heq] at h
    rcases List.mem_cons.mp h with rfl | h
    · rfl
    · exact List.mem_singleton.mp h ▸ hbreak
  · rw [heq] at h
    rcases List.mem_cons.mp h with rfl | h
    · rfl
    · rcases List.mem_cons.mp h with rfl | h
      · exact hbreak
      · exact isBreak_of_mem_paddedHex h

end Dataflow.Yaml
