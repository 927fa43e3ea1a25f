import Dataflow.Json.Place
import Dataflow.Json.Printer
import Dataflow.Proofs.Layout

namespace Dataflow.Json

-- Whether a number ends before this text.
def Ends (rest : List Char) : Prop :=
  ∀ c ∈ rest.head?, isDigit c = false ∧ c ≠ '.' ∧ c ≠ 'e' ∧ c ≠ 'E'

section Extension

variable {cs rest : List Char}

-- Digits are read the same with more text behind them. Text after the last of them must
-- not begin with another digit.
theorem spanDigits_append (cs : List Char) (h : (spanDigits cs).2 = [] → Ends rest) :
    spanDigits (cs ++ rest) = ((spanDigits cs).1, (spanDigits cs).2 ++ rest) := by
  simp only [spanDigits] at h ⊢
  induction cs with
  | nil =>
      cases rest with
      | nil => rfl
      | cons c rest =>
          have hc := (h rfl c rfl).1
          simp [hc]
  | cons c cs ih =>
      by_cases hc : isDigit c = true
      · rw [List.dropWhile_cons_of_pos hc] at h
        have ih := Prod.mk.inj (ih h)
        rw [List.cons_append, List.takeWhile_cons_of_pos hc, List.takeWhile_cons_of_pos hc,
          List.dropWhile_cons_of_pos hc, List.dropWhile_cons_of_pos hc, List.map_cons, ih.1, ih.2,
          List.map_cons]
      · rw [List.cons_append, List.takeWhile_cons_of_neg hc, List.takeWhile_cons_of_neg hc,
          List.dropWhile_cons_of_neg hc, List.dropWhile_cons_of_neg hc]
        rfl

theorem someDigits_append {digits : List Nat} {left : List Char}
    (h : someDigits cs = some (digits, left)) (hl : left = [] → Ends rest) :
    someDigits (cs ++ rest) = some (digits, left ++ rest) := by
  rw [someDigits] at h
  split at h
  · cases h
  · rename_i hne
    obtain heq := Option.some.inj h
    have hspan : spanDigits (cs ++ rest) = (digits, left ++ rest) := by
      rw [spanDigits_append cs (by rw [heq]; exact hl), heq]
    rw [someDigits, hspan]
    split
    · rename_i hnil
      obtain ⟨rfl, -⟩ := Prod.mk.inj hnil
      exact absurd heq (hne left)
    · rfl

theorem wholeDigits_append {digits : List Nat} {left : List Char}
    (h : wholeDigits cs = some (digits, left)) (hl : left = [] → Ends rest) :
    wholeDigits (cs ++ rest) = some (digits, left ++ rest) := by
  rw [wholeDigits] at h
  split at h
  · cases h
  · rename_i hne
    have hsome := someDigits_append h hl
    rw [wholeDigits, hsome]
    split
    · rename_i heq
      obtain ⟨rfl, -⟩ := Prod.mk.inj (Option.some.inj heq)
      exact absurd h (hne _ _ _)
    · rfl

theorem fractionDigits_append {digits : Option (List Nat)} {left : List Char}
    (h : fractionDigits cs = some (digits, left)) (hl : left = [] → Ends rest) :
    fractionDigits (cs ++ rest) = some (digits, left ++ rest) := by
  by_cases hpoint : cs.head? = some '.'
  · obtain ⟨tail, rfl⟩ := List.head?_eq_some_iff.mp hpoint
    obtain ⟨⟨ds, left'⟩, hs, heq⟩ := Option.map_eq_some_iff.mp h
    obtain ⟨rfl, rfl⟩ := Prod.mk.inj heq
    rw [List.cons_append, fractionDigits, someDigits_append hs hl, Option.map_some]
  · have hnone : ∀ cs : List Char, cs.head? ≠ some '.' → fractionDigits cs = some (none, cs) := by
      intro cs hc
      rw [fractionDigits.eq_def]
      split
      · exact absurd rfl hc
      · rfl
    rw [hnone cs hpoint] at h
    obtain ⟨rfl, rfl⟩ := Prod.mk.inj (Option.some.inj h)
    refine hnone _ fun hc => ?_
    cases cs with
    | nil => exact (hl rfl '.' hc).2.1 rfl
    | cons c cs => exact hpoint hc

-- The digits of an exponent with the sign that is known of them.
private def signedDigits (negative : Bool) (cs : List Char) :
    Option (Option (Bool × List Nat) × List Char) :=
  (someDigits cs).map fun (ds, rest) => (some (negative, ds), rest)

private theorem exponentDigits_of_mark {c : Char} (h : c = 'e' ∨ c = 'E') (cs : List Char) :
    exponentDigits (c :: cs) =
      match cs with
      | '+' :: digits => signedDigits false digits
      | '-' :: digits => signedDigits true digits
      | digits => signedDigits false digits :=
  if_pos h

private theorem signedDigits_append {negative : Bool} {digits : Option (Bool × List Nat)}
    {left : List Char} (h : signedDigits negative cs = some (digits, left))
    (hl : left = [] → Ends rest) :
    signedDigits negative (cs ++ rest) = some (digits, left ++ rest) := by
  obtain ⟨⟨ds, left'⟩, hs, heq⟩ := Option.map_eq_some_iff.mp h
  obtain ⟨rfl, rfl⟩ := Prod.mk.inj heq
  rw [signedDigits, someDigits_append hs hl, Option.map_some]

theorem exponentDigits_append {digits : Option (Bool × List Nat)} {left : List Char}
    (h : exponentDigits cs = some (digits, left)) (hl : left = [] → Ends rest) :
    exponentDigits (cs ++ rest) = some (digits, left ++ rest) := by
  cases cs with
  | nil =>
      obtain ⟨rfl, rfl⟩ := Prod.mk.inj (Option.some.inj h)
      have hends := hl rfl
      cases rest with
      | nil => rfl
      | cons c rest =>
          obtain ⟨-, -, he, hE⟩ := hends c rfl
          exact if_neg fun hor => hor.elim he hE
  | cons c cs =>
      by_cases hmark : c = 'e' ∨ c = 'E'
      · rw [exponentDigits_of_mark hmark] at h
        rw [List.cons_append, exponentDigits_of_mark hmark]
        split at h
        case h_1 ds => exact signedDigits_append h hl
        case h_2 ds => exact signedDigits_append h hl
        case h_3 hplus hminus =>
          cases cs with
          | nil => cases h
          | cons sign ds =>
              split
              case h_1 heq => exact absurd rfl ((List.cons.inj heq).1 ▸ hplus ds)
              case h_2 heq => exact absurd rfl ((List.cons.inj heq).1 ▸ hminus ds)
              case h_3 => exact signedDigits_append h hl
      · have hnone : ∀ cs, exponentDigits (c :: cs) = some (none, c :: cs) :=
          fun cs => if_neg hmark
        rw [hnone] at h
        obtain ⟨rfl, rfl⟩ := Prod.mk.inj (Option.some.inj h)
        exact hnone _

theorem parseNumeral_append {negative : Bool} {numeral : Numeral} {left : List Char}
    (h : parseNumeral negative cs = some (numeral, left)) (hl : left = [] → Ends rest) :
    parseNumeral negative (cs ++ rest) = some (numeral, left ++ rest) := by
  simp only [parseNumeral, Option.bind_eq_bind, Option.bind_eq_some_iff] at h ⊢
  obtain ⟨⟨whole, cs₁⟩, hw, ⟨fraction, cs₂⟩, hf, ⟨exponent, cs₃⟩, he, heq⟩ := h
  obtain ⟨rfl, rfl⟩ := Prod.mk.inj (Option.some.inj heq)
  -- only what comes after the last of the digits may meet what stands behind
  have hf' : cs₂ = [] → Ends rest := fun hnil => by
    subst hnil
    obtain ⟨-, rfl⟩ := Prod.mk.inj (Option.some.inj he)
    exact hl rfl
  have hw' : cs₁ = [] → Ends rest := fun hnil => by
    subst hnil
    obtain ⟨-, rfl⟩ := Prod.mk.inj (Option.some.inj hf)
    exact hf' rfl
  exact ⟨_, wholeDigits_append hw hw', _, fractionDigits_append hf hf', _,
    exponentDigits_append he hl, rfl⟩

end Extension

section Suffix

variable {cs left : List Char}

theorem someDigits_suffix {digits : List Nat} (h : someDigits cs = some (digits, left)) :
    left <:+ cs := by
  rw [someDigits] at h
  split at h
  · cases h
  · obtain ⟨-, rfl⟩ := Prod.mk.inj (Option.some.inj h)
    exact List.dropWhile_suffix _

theorem wholeDigits_suffix {digits : List Nat} (h : wholeDigits cs = some (digits, left)) :
    left <:+ cs := by
  rw [wholeDigits] at h
  split at h
  · cases h
  · exact someDigits_suffix h

theorem fractionDigits_suffix {digits : Option (List Nat)}
    (h : fractionDigits cs = some (digits, left)) : left <:+ cs := by
  rw [fractionDigits.eq_def] at h
  split at h
  · obtain ⟨⟨ds, left'⟩, hs, heq⟩ := Option.map_eq_some_iff.mp h
    obtain ⟨-, rfl⟩ := Prod.mk.inj heq
    exact (someDigits_suffix hs).trans (List.suffix_cons _ _)
  · obtain ⟨-, rfl⟩ := Prod.mk.inj (Option.some.inj h)
    exact List.suffix_rfl

private theorem signedDigits_suffix {negative : Bool} {digits : Option (Bool × List Nat)}
    (h : signedDigits negative cs = some (digits, left)) : left <:+ cs := by
  obtain ⟨⟨ds, left'⟩, hs, heq⟩ := Option.map_eq_some_iff.mp h
  obtain ⟨-, rfl⟩ := Prod.mk.inj heq
  exact someDigits_suffix hs

theorem exponentDigits_suffix {digits : Option (Bool × List Nat)}
    (h : exponentDigits cs = some (digits, left)) : left <:+ cs := by
  cases cs with
  | nil =>
      obtain ⟨-, rfl⟩ := Prod.mk.inj (Option.some.inj h)
      exact List.suffix_rfl
  | cons c cs =>
      by_cases hmark : c = 'e' ∨ c = 'E'
      · rw [exponentDigits_of_mark hmark] at h
        refine List.IsSuffix.trans ?_ (List.suffix_cons c cs)
        split at h
        · exact (signedDigits_suffix h).trans (List.suffix_cons _ _)
        · exact (signedDigits_suffix h).trans (List.suffix_cons _ _)
        · exact signedDigits_suffix h
      · have hnone : exponentDigits (c :: cs) = some (none, c :: cs) := if_neg hmark
        rw [hnone] at h
        obtain ⟨-, rfl⟩ := Prod.mk.inj (Option.some.inj h)
        exact List.suffix_rfl

theorem parseNumeral_suffix {negative : Bool} {numeral : Numeral}
    (h : parseNumeral negative cs = some (numeral, left)) : left <:+ cs := by
  simp only [parseNumeral, Option.bind_eq_bind, Option.bind_eq_some_iff] at h
  obtain ⟨⟨whole, cs₁⟩, hw, ⟨fraction, cs₂⟩, hf, ⟨exponent, cs₃⟩, he, heq⟩ := h
  obtain ⟨rfl, rfl⟩ := Prod.mk.inj (Option.some.inj heq)
  exact (exponentDigits_suffix he).trans ((fractionDigits_suffix hf).trans (wholeDigits_suffix hw))

end Suffix

-- A text that is read as one value wherever it stands.
def Spells (cs : List Char) (value : Json) : Prop :=
  ∀ fuel rest, Ends rest → 2 * cs.length < fuel → parseValue fuel (cs ++ rest) = some (value, rest)

theorem isNumberChar_cases {c : Char} (h : isNumberChar c = true) :
    isBlank c = false ∧ c ≠ 'n' ∧ c ≠ 't' ∧ c ≠ 'f' ∧ c ≠ '"' ∧ c ≠ '[' ∧ c ≠ '\x7b' := by
  refine ⟨?_, ?_⟩
  · cases hb : isBlank c with
    | false => rfl
    | true =>
        simp only [isBlank, Bool.or_eq_true, decide_eq_true_eq] at hb
        rcases hb with ((rfl | rfl) | rfl) | rfl <;> cases h
  · refine ⟨?_, ?_, ?_, ?_, ?_, ?_⟩ <;> rintro rfl <;> cases h

-- What begins like a number is read as one, the sign first.
theorem parseValue_number {c : Char} (h : isNumberChar c = true) (fuel : Nat) (cs : List Char) :
    parseValue (fuel + 1) (c :: cs) =
      (if c = '-' then parseNumeral true cs else parseNumeral false (c :: cs)).map
        fun (numeral, rest) => (number numeral, rest) := by
  obtain ⟨hblank, hn, ht, hf, hquote, hbracket, hbrace⟩ := isNumberChar_cases h
  have hskip : skipBlanks (c :: cs) = c :: cs :=
    List.dropWhile_cons_of_neg (by rw [hblank]; exact Bool.false_ne_true)
  rw [parseValue, hskip]
  split
  case h_1 heq => exact absurd (List.cons.inj heq).1 hn
  case h_2 heq => exact absurd (List.cons.inj heq).1 ht
  case h_3 heq => exact absurd (List.cons.inj heq).1 hf
  case h_4 heq => exact absurd (List.cons.inj heq).1 hquote
  case h_5 heq => exact absurd (List.cons.inj heq).1 hbracket
  case h_6 heq => exact absurd (List.cons.inj heq).1 hbrace
  case h_7 heq =>
    obtain ⟨rfl, rfl⟩ := List.cons.inj heq
    rw [if_pos rfl]
  case h_8 hminus => rw [if_neg fun hc : c = '-' => hminus cs (by rw [hc])]

-- The text of a number that is a document by itself is read the same among others.
theorem spells_number {cs : List Char} {value : Json} (hchars : ∀ c ∈ cs, isNumberChar c = true)
    (h : parse? (String.ofList cs) = some value) :
    Spells cs value ∧ ∃ numeral, value = .number numeral := by
  simp only [parse?, String.toList_ofList] at h
  split at h
  case h_2 => cases h
  case h_1 heq =>
    rename_i value' left
    split at h
    case isFalse => cases h
    case isTrue hleft =>
      obtain rfl := Option.some.inj h
      cases cs with
      | nil => cases heq
      | cons c cs =>
          have hc := hchars c List.mem_cons_self
          rw [parseValue_number hc] at heq
          obtain ⟨⟨numeral, left'⟩, hn, hpair⟩ := Option.map_eq_some_iff.mp heq
          obtain ⟨rfl, rfl⟩ := Prod.mk.inj hpair
          have hsuffix : left' <:+ c :: cs := by
            split at hn
            · exact (parseNumeral_suffix hn).trans (List.suffix_cons _ _)
            · exact parseNumeral_suffix hn
          have hnil : left' = [] := by
            cases left' with
            | nil => rfl
            | cons d left' =>
                have hd := (isNumberChar_cases (hchars d (hsuffix.subset List.mem_cons_self))).1
                rw [skipBlanks, List.dropWhile_cons_of_neg (by rw [hd]; exact Bool.false_ne_true)]
                  at hleft
                cases hleft
          subst hnil
          refine ⟨fun fuel rest hends hfuel => ?_, numeral, rfl⟩
          obtain ⟨fuel, rfl⟩ := Nat.exists_eq_add_of_lt hfuel
          rw [List.cons_append, parseValue_number hc]
          split at hn
          case isTrue hminus =>
            rw [if_pos hminus, parseNumeral_append hn fun _ => hends]
            rfl
          case isFalse hminus =>
            rw [if_neg hminus, ← List.cons_append, parseNumeral_append hn fun _ => hends]
            rfl

section Integers

theorem isDigit_digitChar {d : Nat} (h : d < 10) : isDigit d.digitChar = true := by
  have hall : ∀ d < 10, isDigit d.digitChar = true := by decide
  exact hall d h

theorem digitValue_digitChar {d : Nat} (h : d < 10) : digitValue d.digitChar = d :=
  Nat.toNat_digitChar_sub_48_of_lt_ten h

theorem isNumberChar_digitChar {d : Nat} (h : d < 10) : isNumberChar d.digitChar = true := by
  have hall : ∀ d < 10, isNumberChar d.digitChar = true := by decide
  exact hall d h

theorem spanDigits_digits {digits : List Nat} (h : ∀ d ∈ digits, d < 10) {rest : List Char}
    (hends : Ends rest) : spanDigits (digits.map Nat.digitChar ++ rest) = (digits, rest) := by
  have hall : ∀ c ∈ digits.map Nat.digitChar, isDigit c = true := by
    intro c hc
    obtain ⟨d, hd, rfl⟩ := List.mem_map.mp hc
    exact isDigit_digitChar (h d hd)
  have hnone : rest.takeWhile isDigit = [] ∧ rest.dropWhile isDigit = rest := by
    cases rest with
    | nil => exact ⟨rfl, rfl⟩
    | cons c rest =>
        have hc : ¬isDigit c = true := by
          rw [(hends c rfl).1]
          exact Bool.false_ne_true
        exact ⟨List.takeWhile_cons_of_neg hc, List.dropWhile_cons_of_neg hc⟩
  rw [spanDigits, List.takeWhile_append_of_pos hall, List.dropWhile_append_of_pos hall, hnone.1,
    hnone.2, List.append_nil, List.map_map]
  congr 1
  exact (List.map_congr_left fun d hd => digitValue_digitChar (h d hd)).trans (List.map_id _)

theorem parseNumeral_digits {digits : List Nat} (h : ∀ d ∈ digits, d < 10) (hne : digits ≠ [])
    (hzero : digits.head? = some 0 → digits = [0]) (negative : Bool) {rest : List Char}
    (hends : Ends rest) :
    parseNumeral negative (digits.map Nat.digitChar ++ rest) =
      some (⟨negative, digits, none, none⟩, rest) := by
  have hsome : someDigits (digits.map Nat.digitChar ++ rest) = some (digits, rest) := by
    rw [someDigits, spanDigits_digits h hends]
    split
    · rename_i heq
      exact absurd (Prod.mk.inj heq).1 hne
    · rfl
  have hwhole : wholeDigits (digits.map Nat.digitChar ++ rest) = some (digits, rest) := by
    rw [wholeDigits, hsome]
    split
    · rename_i heq
      obtain ⟨rfl, -⟩ := Prod.mk.inj (Option.some.inj heq)
      cases hzero rfl
    · rfl
  have hfraction : fractionDigits rest = some (none, rest) := by
    rw [fractionDigits.eq_def]
    split
    · exact absurd rfl (hends '.' rfl).2.1
    · rfl
  have hexponent : exponentDigits rest = some (none, rest) := by
    cases rest with
    | nil => rfl
    | cons c rest =>
        obtain ⟨-, -, he, hE⟩ := hends c rfl
        exact if_neg fun hor => hor.elim he hE
  simp only [parseNumeral, hwhole, Option.bind_eq_bind, Option.bind_some, hfraction, hexponent]
  rfl

theorem le_ofDigits (digits : List Nat) (sum : Nat) :
    sum ≤ digits.foldl (fun sum digit => 10 * sum + digit) sum := by
  induction digits generalizing sum with
  | nil => exact Nat.le_refl sum
  | cons d rest ih => exact Nat.le_trans (by omega) (ih (10 * sum + d))

-- Digits are all taken if the number they stand for fits.
theorem takeDigits_of_le (digits : List Nat) (sum : Nat)
    (h : digits.foldl (fun sum digit => 10 * sum + digit) sum ≤ Numeral.mostSignificand) :
    Numeral.takeDigits sum digits =
      (digits.foldl (fun sum digit => 10 * sum + digit) sum, []) := by
  induction digits generalizing sum with
  | nil => rfl
  | cons d rest ih =>
      have hle := le_ofDigits rest (10 * sum + d)
      rw [List.foldl_cons] at h ⊢
      rw [Numeral.takeDigits, if_neg (by omega), ih _ h]

-- An integer of 64 bits, with a sign or without, is read as itself.
theorem spells_int {i : Int} (hmin : -2 ^ 63 ≤ i) (hmax : i < 2 ^ 64) :
    ∃ numeral, Spells (toString i).toList (.number numeral) ∧ numeral.toInt? = some i := by
  obtain ⟨digits, heq, hlt, hsum, hne, hzero⟩ := exists_digits (show 1 < 10 by decide) i.natAbs
  refine ⟨⟨decide (i < 0), digits, none, none⟩, fun fuel rest hends hfuel => ?_, ?_⟩
  · obtain ⟨fuel, rfl⟩ := Nat.exists_eq_add_of_lt hfuel
    rw [toList_toString_int, heq]
    have hparse := fun negative => parseNumeral_digits hlt hne (fun h => (hzero h).2) negative hends
    by_cases hneg : i < 0
    · rw [if_pos hneg, List.cons_append, parseValue_number (by decide), if_pos rfl, hparse,
        decide_eq_true hneg]
      rfl
    · rw [if_neg hneg]
      cases digits with
      | nil => exact absurd rfl hne
      | cons d rest' =>
          have hd := hlt d List.mem_cons_self
          have hminus : d.digitChar ≠ '-' := fun h => by
            have hdigit := isDigit_digitChar hd
            rw [h] at hdigit
            cases hdigit
          have hone := hparse false
          rw [List.map_cons, List.cons_append] at hone ⊢
          rw [parseValue_number (isNumberChar_digitChar hd), if_neg hminus, hone,
            decide_eq_false hneg]
          rfl
  · have hfits : ofDigits 10 digits ≤ Numeral.mostSignificand := by
      rw [hsum, Numeral.mostSignificand, Nat.pow_eq]
      omega
    have htake := takeDigits_of_le digits 0 hfits
    rw [← ofDigits, hsum] at htake
    simp only [Numeral.toInt?, Numeral.isWhole, Option.isNone_none, Bool.and_self, if_true, htake]
    by_cases hneg : i < 0
    · have hsize : i.natAbs ≠ 0 ∧ i.natAbs ≤ Nat.pow 2 63 := by
        rw [Nat.pow_eq]
        omega
      rw [decide_eq_true hneg, if_neg (by simp), if_pos hsize]
      exact congrArg some (by omega)
    · rw [decide_eq_false hneg, if_pos (by simp)]
      exact congrArg some (by omega)

end Integers

end Dataflow.Json
