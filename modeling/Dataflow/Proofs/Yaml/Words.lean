import Dataflow.Proofs.Layout
import Dataflow.Proofs.Yaml.Plain

namespace Dataflow.Yaml

-- The characters of words and numbers that stand for themselves.
def isNumeralChar (c : Char) : Bool :=
  c.isAlphanum || c = '.' || c = '-' || c = '+'

section Chars

variable {c : Char}

theorem ne_of_isNumeralChar (h : isNumeralChar c = true) {d : Char} (hd : isNumeralChar d = false) :
    c ≠ d := by
  rintro rfl
  rw [h] at hd
  cases hd

theorem solid_of_isNumeralChar (h : isNumeralChar c = true) :
    isBlank c = false ∧ isBreak c = false := by
  have hne := fun d => @ne_of_isNumeralChar c h d
  constructor
  · simp [isBlank, hne ' ' (by decide), hne '\t' (by decide)]
  · simp [isBreak, hne '\n' (by decide), hne '\r' (by decide), hne '\u0085' (by decide),
      hne '\u2028' (by decide), hne '\u2029' (by decide)]

theorem isNumeralChar_of_isNumberChar (h : isNumberChar c = true) : isNumeralChar c = true := by
  simp only [isNumberChar, Bool.or_eq_true, Bool.and_eq_true, decide_eq_true_eq] at h
  rcases h with (((⟨hlow, hhigh⟩ | rfl) | rfl) | rfl) | rfl
  · have hdigit : c.isDigit = true := by
      rw [Char.isDigit, Bool.and_eq_true, decide_eq_true_eq, decide_eq_true_eq]
      exact ⟨hlow, hhigh⟩
    simp [isNumeralChar, Char.isAlphanum, hdigit]
  · decide
  · decide
  · decide
  · decide

end Chars

section Words

variable {cs : List Char}

-- One word of such characters, unless it looks like a mark.
theorem plainText_of_numeral (hne : cs ≠ []) (hchars : ∀ c ∈ cs, isNumeralChar c = true)
    (hhyphens : cs.take 3 ≠ ['-', '-', '-']) (hdots : cs.take 3 ≠ ['.', '.', '.'])
    (hhyphen : cs ≠ ['-']) : PlainText cs := by
  have hword : Word cs := by
    refine ⟨hne, fun c hc => solid_of_isNumeralChar (hchars c hc), fun hlast => ?_⟩
    have hcolon := hchars ':' (List.mem_of_getLast? hlast)
    cases hcolon
  refine ⟨.last hword, ?_, fun heq => ?_⟩
  · cases cs with
    | nil => exact absurd rfl hne
    | cons c rest =>
        obtain ⟨hc, hrest⟩ := List.forall_mem_cons.mp hchars
        have hnone : "#,[]\x7b\x7d&*!|>'\"%@`".toList.contains c = false := by
          refine Bool.eq_false_iff.mpr fun hcontains => ?_
          have hall : ∀ d ∈ "#,[]\x7b\x7d&*!|>'\"%@`".toList, isNumeralChar d = false :=
            forall_mem_of_all (by decide)
          rw [hall c (List.contains_iff_mem.mp hcontains)] at hc
          cases hc
        have hgap : blankNext rest = true → c ≠ '-' := by
          rintro hnext rfl
          cases rest with
          | nil => exact hhyphen rfl
          | cons d rest =>
              obtain ⟨hblank, hbreak⟩ := solid_of_isNumeralChar (hrest d List.mem_cons_self)
              rw [blankNext, hblank, hbreak] at hnext
              cases hnext
        have hmark : ((decide (c = '?') || decide (c = ':') || decide (c = '-')) &&
            blankNext rest) = false := by
          rw [decide_eq_false (ne_of_isNumeralChar hc (by decide)),
            decide_eq_false (ne_of_isNumeralChar hc (by decide))]
          cases hnext : blankNext rest with
          | false => exact Bool.and_false _
          | true => rw [decide_eq_false (hgap hnext)]; rfl
        simp only [isMarkStart, hhyphens, hdots, hnone, hmark, decide_false, Bool.or_self]
  · have hmark := hchars '\ufeff' (List.mem_of_mem_head? heq)
    cases hmark

theorem float?_hyphens (rest : List Char) : float? ('-' :: '-' :: rest) = none := by
  simp [float?, finite?, decimalParts?, isDigit]

theorem float?_dots (rest : List Char) : float? ('.' :: '.' :: rest) = none := by
  simp [float?, finite?, decimalParts?, isDigit]

theorem plainText_of_float (hchars : ∀ c ∈ cs, isNumeralChar c = true) {x : Float}
    (h : float? cs = some x) : PlainText cs := by
  refine plainText_of_numeral ?_ hchars ?_ ?_ ?_
  · rintro rfl
    cases h
  · intro htake
    match cs, htake with
    | a :: b :: c :: rest, htake =>
        obtain ⟨rfl, hrest⟩ := List.cons.inj htake
        obtain ⟨rfl, -⟩ := List.cons.inj hrest
        rw [float?_hyphens] at h
        cases h
  · intro htake
    match cs, htake with
    | a :: b :: c :: rest, htake =>
        obtain ⟨rfl, hrest⟩ := List.cons.inj htake
        obtain ⟨rfl, -⟩ := List.cons.inj hrest
        rw [float?_dots] at h
        cases h
  · rintro rfl
    cases h

-- The digits of a number, with a sign or without.
theorem plainText_of_digits {digits : List Char} (hne : digits ≠ [])
    (hdigits : ∀ c ∈ digits, c.isDigit = true) (negative : Bool) :
    PlainText (if negative then '-' :: digits else digits) := by
  have hchar : ∀ c, c.isDigit = true → isNumeralChar c = true ∧ c ≠ '-' ∧ c ≠ '.' := by
    intro c hc
    refine ⟨by simp [isNumeralChar, Char.isAlphanum, hc], ?_, ?_⟩
    · rintro rfl
      cases hc
    · rintro rfl
      cases hc
  cases digits with
  | nil => exact absurd rfl hne
  | cons d rest =>
      obtain ⟨-, hhyphen, hdot⟩ := hchar d (hdigits d List.mem_cons_self)
      have hall : ∀ c ∈ d :: rest, isNumeralChar c = true := fun c hc => (hchar c (hdigits c hc)).1
      cases negative with
      | false =>
          refine plainText_of_numeral (List.cons_ne_nil _ _) hall ?_ ?_ ?_
          · exact fun heq => hhyphen (List.cons.inj heq).1
          · exact fun heq => hdot (List.cons.inj heq).1
          · exact fun heq => hhyphen (List.cons.inj heq).1
      | true =>
          refine plainText_of_numeral (List.cons_ne_nil _ _)
            (List.forall_mem_cons.mpr ⟨rfl, hall⟩) ?_ ?_ ?_
          · exact fun heq => hhyphen (List.cons.inj (List.cons.inj heq).2).1
          · exact fun heq => absurd (List.cons.inj heq).1 (by decide)
          · exact fun heq => List.cons_ne_nil _ _ (List.cons.inj heq).2

end Words

section Written

-- The digits printed for a number are read as that number.
def ReadsBack (x : Float) : Prop :=
  resolve (doubleLayout.writeFloat x).toList = .float x

def SingleReadsBack (x : Float32) : Prop :=
  (float? (singleLayout.writeFloat32 x).toList).map Binary.narrow = some x

instance : DecidablePred ReadsBack := fun x =>
  inferInstanceAs (Decidable (resolve (doubleLayout.writeFloat x).toList = .float x))

instance : DecidablePred SingleReadsBack := fun x =>
  inferInstanceAs (Decidable
    ((float? (singleLayout.writeFloat32 x).toList).map Binary.narrow = some x))

theorem isNumeralChar_of_mem_write {layout : Layout} {width : Width} {binary : Binary} {c : Char}
    (hlayout : layout = doubleLayout ∨ layout = singleLayout)
    (hc : c ∈ layout.write width binary) : isNumeralChar c = true := by
  cases binary with
  | nan =>
      have hall : ∀ c ∈ ".nan".toList, isNumeralChar c = true :=
        forall_mem_of_all (by decide)
      rcases hlayout with rfl | rfl <;> exact hall c hc
  | infinite negative =>
      have hplus : ∀ c ∈ ".inf".toList, isNumeralChar c = true :=
        forall_mem_of_all (by decide)
      have hminus : ∀ c ∈ "-.inf".toList, isNumeralChar c = true :=
        forall_mem_of_all (by decide)
      rcases hlayout with rfl | rfl <;> cases negative
      · exact hplus c hc
      · exact hminus c hc
      · exact hplus c hc
      · exact hminus c hc
  | finite negative mantissa place =>
      refine isNumeralChar_of_isNumberChar (Layout.isNumberChar_of_mem_write ?_ ?_ hc)
      · rcases hlayout with rfl | rfl <;> exact forall_mem_of_all (by decide)
      · rcases hlayout with rfl | rfl <;> exact nofun

theorem isNumeralChar_of_mem_writeFloat {x : Float} {c : Char}
    (hc : c ∈ (doubleLayout.writeFloat x).toList) : isNumeralChar c = true := by
  rw [Layout.writeFloat, String.toList_ofList] at hc
  exact isNumeralChar_of_mem_write (.inl rfl) hc

theorem isNumeralChar_of_mem_writeFloat32 {x : Float32} {c : Char}
    (hc : c ∈ (singleLayout.writeFloat32 x).toList) : isNumeralChar c = true := by
  rw [Layout.writeFloat32, String.toList_ofList] at hc
  exact isNumeralChar_of_mem_write (.inr rfl) hc

theorem float?_of_resolve {cs : List Char} {x : Float} (h : resolve cs = .float x) :
    float? cs = some x := by
  rw [resolve] at h
  split at h
  · cases h
  · split at h
    · cases h
    · split at h
      · rename_i number hint
        subst h
        rw [int?] at hint
        split at hint
        · cases hint
        · cases hint
        · simp only [] at hint
          split at hint <;> cases hint
      · split at h
        · cases h
        · split at h
          · rename_i y hy
            obtain rfl := Plain.float.inj h
            exact hy
          · cases h

theorem plainText_writeFloat {x : Float} (h : ReadsBack x) :
    PlainText (doubleLayout.writeFloat x).toList :=
  plainText_of_float (fun _ => isNumeralChar_of_mem_writeFloat) (float?_of_resolve h)

theorem plainText_writeFloat32 {x : Float32} (h : SingleReadsBack x) :
    PlainText (singleLayout.writeFloat32 x).toList := by
  obtain ⟨y, hfloat, -⟩ := Option.map_eq_some_iff.mp h
  exact plainText_of_float (fun _ => isNumeralChar_of_mem_writeFloat32) hfloat

end Written

section Integers

variable {digits : List Nat}

theorem natOf?_digits (hne : digits ≠ []) (hlt : ∀ d ∈ digits, d < 10) :
    natOf? 10 (digits.map Nat.digitChar) = some (ofDigits 10 digits) := by
  have hempty : (digits.map Nat.digitChar).isEmpty = false := by
    rw [List.isEmpty_eq_false_iff]
    exact fun heq => hne (List.map_eq_nil_iff.mp heq)
  have hvalues : (digits.map Nat.digitChar).mapM Uuid.hexValue? = some (digits.map id) :=
    mapM_map_eq_pure digits fun d hd =>
      Uuid.hexValue?_digitChar (Nat.lt_trans (hlt d hd) (by decide))
  have hall : digits.all (· < 10) = true := List.all_eq_true.mpr fun d hd => by simpa using hlt d hd
  rw [natOf?, hempty, hvalues, List.map_id]
  show (if digits.all (· < 10) then pure (ofDigits 10 digits) else none) = _
  rw [hall]
  rfl

theorem digitChar_ne_zero {d : Nat} (hd : d < 10) (hpos : d ≠ 0) : d.digitChar ≠ '0' := by
  have hall : ∀ d < 10, d ≠ 0 → d.digitChar ≠ '0' := by decide
  exact hall d hd hpos

-- Digits without a zero in front announce no base and are not padded.
theorem basedNat?_digits (hlt : ∀ d ∈ digits, d < 10) (hzero : digits.head? = some 0 → digits = [0]) :
    basedNat? (digits.map Nat.digitChar) = none ∧
      isZeroPadded (digits.map Nat.digitChar) = false ∧
      isZeroPadded ('-' :: digits.map Nat.digitChar) = false := by
  match digits with
  | [] => exact ⟨rfl, rfl, rfl⟩
  | [d] =>
      have hall : ∀ d < 10, basedNat? [d.digitChar] = none ∧ isZeroPadded [d.digitChar] = false ∧
          isZeroPadded ['-', d.digitChar] = false := by decide
      exact hall d (hlt d List.mem_cons_self)
  | d :: e :: rest =>
      have hd : d ≠ 0 := by
        rintro rfl
        cases hzero rfl
      have hfirst := digitChar_ne_zero (hlt d List.mem_cons_self) hd
      have hsign : ∀ d < 10, d.digitChar ≠ '-' ∧ d.digitChar ≠ '+' := by decide
      obtain ⟨hminus, hplus⟩ := hsign d (hlt d List.mem_cons_self)
      simp [basedNat?, isZeroPadded, hfirst, hminus, hplus]

theorem unsigned?_digits (hne : digits ≠ []) (hlt : ∀ d ∈ digits, d < 10)
    (hzero : digits.head? = some 0 → digits = [0]) {limit : Nat}
    (hlimit : ofDigits 10 digits < limit) :
    unsigned? limit (digits.map Nat.digitChar) = some (ofDigits 10 digits) := by
  obtain ⟨hbased, hpadded, -⟩ := basedNat?_digits hlt hzero
  have hnat := natOf?_digits hne hlt
  have hplus : ∀ rest, digits.map Nat.digitChar = '+' :: rest → False := by
    intro rest heq
    cases digits with
    | nil => cases heq
    | cons d digits =>
        have hall : ∀ d < 10, d.digitChar ≠ '+' := by decide
        exact hall d (hlt d List.mem_cons_self) (List.cons.inj heq).1
  rw [unsigned?]
  simp only [hbased, hpadded, hnat, Option.bind_none, Option.bind_some, hlimit,
    Bool.false_eq_true, if_false, if_true]
  exact hplus

theorem negative?_digits (hne : digits ≠ []) (hlt : ∀ d ∈ digits, d < 10)
    (hzero : digits.head? = some 0 → digits = [0]) {limit : Nat}
    (hlimit : ofDigits 10 digits ≤ limit) :
    negative? limit ('-' :: digits.map Nat.digitChar) = some (ofDigits 10 digits) ∧
      ∀ limit, unsigned? limit ('-' :: digits.map Nat.digitChar) = none := by
  obtain ⟨hbased, hpadded, hsigned⟩ := basedNat?_digits hlt hzero
  have hnat := natOf?_digits hne hlt
  constructor
  · rw [negative?]
    simp only [hbased, hsigned, hnat, Option.bind_none, Option.bind_some, hlimit,
      Bool.false_eq_true, if_false, if_true]
  · intro limit
    have hnone : natOf? 10 ('-' :: digits.map Nat.digitChar) = none := by
      rw [natOf?, List.mapM_cons]
      rfl
    have hbasedSigned : basedNat? ('-' :: digits.map Nat.digitChar) = none := rfl
    rw [unsigned?]
    simp only [hbasedSigned, hsigned, hnone, Option.bind_none, Bool.false_eq_true, if_false]
    exact nofun

-- An integer of 64 bits, with a sign or without, is read as itself.
theorem resolve_toString {i : Int} (hmin : -2 ^ 63 ≤ i) (hmax : i < 2 ^ 64) :
    PlainText (toString i).toList ∧ resolve (toString i).toList = .int i ∧
      (0 ≤ i → unsigned? (Nat.pow 2 64) (toString i).toList = some i.toNat) := by
  obtain ⟨digits, heq, hlt, hsum, hne, hzero⟩ := exists_digits (show 1 < 10 by decide) i.natAbs
  have hzero := fun h => (hzero h).2
  have hplain : PlainText (toString i).toList := by
    have hdigits : ∀ c ∈ digits.map Nat.digitChar, c.isDigit = true := by
      intro c hc
      obtain ⟨d, hd, rfl⟩ := List.mem_map.mp hc
      have hall : ∀ d < 10, d.digitChar.isDigit = true := by decide
      exact hall d (hlt d hd)
    have h := plainText_of_digits (fun heq => hne (List.map_eq_nil_iff.mp heq)) hdigits
      (decide (i < 0))
    rw [toList_toString_int, heq]
    by_cases hneg : i < 0
    · rw [if_pos (decide_eq_true hneg)] at h
      rwa [if_pos hneg]
    · rw [if_neg (by simpa using hneg)] at h
      rwa [if_neg hneg]
  have hint : int? (toString i).toList = some (.int i) ∧
      (0 ≤ i → unsigned? (Nat.pow 2 64) (toString i).toList = some i.toNat) := by
    rw [toList_toString_int, heq]
    by_cases hneg : i < 0
    · have hsize : ofDigits 10 digits ≤ Nat.pow 2 63 := by
        rw [hsum, Nat.pow_eq]
        omega
      obtain ⟨hnegative, hunsigned⟩ := negative?_digits hne hlt hzero hsize
      rw [if_pos hneg, int?, hnegative, hunsigned]
      refine ⟨?_, fun h => absurd hneg (by omega)⟩
      rw [hsum]
      exact congrArg (fun n => some (Plain.int n)) (by omega)
    · have hsize : ofDigits 10 digits < Nat.pow 2 64 := by
        rw [hsum, Nat.pow_eq]
        omega
      have hunsigned := unsigned?_digits hne hlt hzero hsize
      rw [if_neg hneg, int?, hunsigned, hsum]
      exact ⟨congrArg (fun n => some (Plain.int n)) (by omega), fun _ => congrArg some (by omega)⟩
  have hfirst : ∀ c ∈ (toString i).toList.head?, c ≠ 'n' ∧ c ≠ 'N' ∧ c ≠ '~' ∧ c ≠ 't' ∧ c ≠ 'T' ∧
      c ≠ 'f' ∧ c ≠ 'F' := by
    rw [toList_toString_int, heq]
    intro c hc
    by_cases hneg : i < 0
    · rw [if_pos hneg] at hc
      obtain rfl := Option.mem_some_iff.mp hc
      decide
    · rw [if_neg hneg] at hc
      cases digits with
      | nil => cases hc
      | cons d digits =>
          obtain rfl := Option.mem_some_iff.mp hc
          have hall : ∀ d < 10, d.digitChar ≠ 'n' ∧ d.digitChar ≠ 'N' ∧ d.digitChar ≠ '~' ∧
              d.digitChar ≠ 't' ∧ d.digitChar ≠ 'T' ∧ d.digitChar ≠ 'f' ∧ d.digitChar ≠ 'F' := by
            decide
          exact hall d (hlt d List.mem_cons_self)
  refine ⟨hplain, ?_, hint.2⟩
  have hint := hint.1
  have hne := hplain.words.nonempty
  generalize (toString i).toList = cs at hint hfirst hne
  cases cs with
  | nil => exact absurd rfl hne
  | cons c rest =>
      have hc := hfirst c rfl
      have hnull : isNullWord (c :: rest) = false := by
        simp [isNullWord, nullWords, hc]
      have htruth : truth? (c :: rest) = none := by
        simp [truth?, hc]
      rw [resolve, hnull, htruth]
      simp only [hint]
      rfl

end Integers

end Dataflow.Yaml
