import Dataflow.Decimal.Layout
import Dataflow.Proofs.Digits

namespace Dataflow

-- The characters that numbers are written with.
def isNumberChar (c : Char) : Bool :=
  ('0' ≤ c && c ≤ '9') || c = '.' || c = 'e' || c = '-' || c = '+'

namespace Decimal

theorem lt_of_mem_digitsOf {n d : Nat} (h : d ∈ digitsOf n) : d < 10 := by
  obtain ⟨digits, heq, hlt, -, -, -⟩ := exists_digits (show 1 < 10 by decide) n
  rw [digitsOf, heq, List.map_map, List.mem_map] at h
  obtain ⟨k, hk, rfl⟩ := h
  have hk10 := hlt k hk
  rw [Function.comp_apply, Nat.toNat_digitChar_of_lt_ten hk10]
  exact (Nat.add_sub_cancel_left 48 k).symm ▸ hk10

theorem lt_of_mem_ofScaled {n : Nat} {exponent : Int} {d : Nat}
    (h : d ∈ (ofScaled n exponent).digits) : d < 10 := by
  simp only [ofScaled] at h
  split at h
  · obtain rfl := List.mem_singleton.mp h
    decide
  · rename_i first rest heq
    rw [← heq, List.mem_reverse] at h
    exact lt_of_mem_digitsOf (List.mem_reverse.mp ((List.dropWhile_sublist _).mem h))

theorem lt_of_mem_search {tieUp : Bool} {range : Range} {leading : Int} {fuel count d : Nat}
    (h : d ∈ (search tieUp range leading fuel count).digits) : d < 10 := by
  induction fuel generalizing count with
  | zero => exact lt_of_mem_ofScaled h
  | succ fuel ih =>
      rw [search] at h
      split at h
      · exact lt_of_mem_ofScaled h
      · exact ih h

theorem lt_of_mem_shortest {tieUp : Bool} {width : Width} {mantissa : Nat} {place : Int} {d : Nat}
    (h : d ∈ (shortest tieUp width mantissa place).digits) : d < 10 := by
  rw [shortest] at h
  split at h
  · obtain rfl := List.mem_singleton.mp h
    decide
  · exact lt_of_mem_search h

end Decimal

namespace Layout

theorem isNumberChar_of_mem_digitChars {digits : List Nat} (h : ∀ d ∈ digits, d < 10) {c : Char}
    (hc : c ∈ digitChars digits) : isNumberChar c = true := by
  obtain ⟨d, hd, rfl⟩ := List.mem_map.mp hc
  have hall : ∀ d < 10, isNumberChar (digitChar d) = true := by decide
  exact hall d (h d hd)

section Written

variable {layout : Layout} {decimal : Decimal}

theorem isNumberChar_of_mem_positional
    (hwhole : ∀ c ∈ layout.whole.toList, isNumberChar c = true)
    (hdigits : ∀ d ∈ decimal.digits, d < 10) {c : Char} (hc : c ∈ layout.positional decimal) :
    isNumberChar c = true := by
  have hchars := fun c => @isNumberChar_of_mem_digitChars _ hdigits c
  have hzeros : ∀ n, ∀ c ∈ List.replicate n '0', isNumberChar c = true := by
    intro n c hc
    rw [List.eq_of_mem_replicate hc]
    rfl
  simp only [positional] at hc
  split at hc
  · simp only [List.cons_append, List.mem_cons, List.mem_append] at hc
    rcases hc with rfl | rfl | hc | hc
    · rfl
    · rfl
    · exact hzeros _ c hc
    · exact hchars c hc
  · split at hc
    · simp only [List.mem_append] at hc
      rcases hc with (hc | hc) | hc
      · exact hchars c hc
      · exact hzeros _ c hc
      · exact hwhole c hc
    · simp only [List.mem_append, List.mem_cons] at hc
      rcases hc with hc | rfl | hc
      · exact hchars c (List.mem_of_mem_take hc)
      · rfl
      · exact hchars c (List.mem_of_mem_drop hc)

theorem isNumberChar_of_mem_scientific
    (hplus : ∀ c ∈ layout.plus.toList, isNumberChar c = true)
    (hdigits : ∀ d ∈ decimal.digits, d < 10) {c : Char} (hc : c ∈ layout.scientific decimal) :
    isNumberChar c = true := by
  have hchars := fun c => @isNumberChar_of_mem_digitChars _ hdigits c
  have hpower : ∀ n, ∀ c ∈ digitChars (Decimal.digitsOf n), isNumberChar c = true :=
    fun n c => isNumberChar_of_mem_digitChars fun d => Decimal.lt_of_mem_digitsOf
  have hexponent : ∀ c ∈ (if decimal.point - 1 < 0 then
        '-' :: digitChars (Decimal.digitsOf (decimal.point - 1).natAbs)
      else layout.plus.toList ++ digitChars (Decimal.digitsOf (decimal.point - 1).natAbs)),
      isNumberChar c = true := by
    split
    · simp only [List.mem_cons]
      rintro c (rfl | hc)
      · rfl
      · exact hpower _ c hc
    · simp only [List.mem_append]
      rintro c (hc | hc)
      · exact hplus c hc
      · exact hpower _ c hc
  simp only [scientific] at hc
  generalize digitChars decimal.digits = digits at hc hchars
  cases digits with
  | nil =>
      rcases List.mem_cons.mp hc with rfl | hc
      · rfl
      · exact hexponent c hc
  | cons first digits =>
      cases digits with
      | nil =>
          simp only [List.mem_cons] at hc
          rcases hc with rfl | rfl | hc
          · exact hchars _ List.mem_cons_self
          · rfl
          · exact hexponent c hc
      | cons second rest =>
          simp only [List.cons_append, List.mem_cons, List.mem_append] at hc
          rcases hc with rfl | rfl | rfl | hc | rfl | hc
          · exact hchars _ List.mem_cons_self
          · rfl
          · exact hchars _ (List.mem_cons_of_mem _ List.mem_cons_self)
          · exact hchars _ (List.mem_cons_of_mem _ (List.mem_cons_of_mem _ hc))
          · rfl
          · exact hexponent c hc

-- A finite number is written with these characters only, where the layout adds no others.
theorem isNumberChar_of_mem_write {width : Width} {negative : Bool} {mantissa : Nat} {place : Int}
    (hwhole : ∀ c ∈ layout.whole.toList, isNumberChar c = true)
    (hplus : ∀ c ∈ layout.plus.toList, isNumberChar c = true) {c : Char}
    (hc : c ∈ layout.write width (.finite negative mantissa place)) : isNumberChar c = true := by
  have hdigits := fun d =>
    @Decimal.lt_of_mem_shortest layout.tieUp width mantissa place d
  have htext : ∀ c ∈ (if layout.isPositional
        (Decimal.shortest layout.tieUp width mantissa place).point then
      layout.positional (Decimal.shortest layout.tieUp width mantissa place)
      else layout.scientific (Decimal.shortest layout.tieUp width mantissa place)),
      isNumberChar c = true := by
    split
    · exact fun c => isNumberChar_of_mem_positional hwhole hdigits
    · exact fun c => isNumberChar_of_mem_scientific hplus hdigits
  simp only [write] at hc
  cases negative with
  | false => exact htext c hc
  | true =>
      rcases List.mem_cons.mp hc with rfl | hc
      · rfl
      · exact htext c hc

end Written

end Layout

end Dataflow
