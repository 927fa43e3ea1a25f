import Dataflow.Uuid
import Mathlib

namespace Dataflow

-- A number that is put together digit by digit.
def ofDigits (base : Nat) (digits : List Nat) : Nat :=
  digits.foldl (fun sum digit => base * sum + digit) 0

theorem ofDigits_append_singleton (base : Nat) (digits : List Nat) (d : Nat) :
    ofDigits base (digits ++ [d]) = base * ofDigits base digits + d := by
  rw [ofDigits, List.foldl_append]
  rfl

-- The digits of a number: they stand for it, and no zero stands in front unless it is
-- all there is.
theorem exists_digits {base : Nat} (hb : 1 < base) (n : Nat) :
    ∃ digits, Nat.toDigits base n = digits.map Nat.digitChar ∧ (∀ d ∈ digits, d < base) ∧
      ofDigits base digits = n ∧ digits ≠ [] ∧ (digits.head? = some 0 → n = 0 ∧ digits = [0]) := by
  induction n using Nat.base_induction base hb with
  | single m hm =>
      refine ⟨[m], Nat.toDigits_of_lt_base hm, ?_, ?_, List.cons_ne_nil _ _, ?_⟩
      · intro d hd
        obtain rfl := List.mem_singleton.mp hd
        exact hm
      · simp [ofDigits]
      · intro h
        obtain rfl := Option.some.inj h
        exact ⟨rfl, rfl⟩
  | digit m k hk hm ih =>
      obtain ⟨digits, heq, hlt, hsum, hne, hzero⟩ := ih
      refine ⟨digits ++ [k], ?_, ?_, ?_, by simp, ?_⟩
      · rw [← Nat.toDigits_append_toDigits hb hm hk, Nat.toDigits_of_lt_base hk, heq,
          List.map_append, List.map_singleton]
      · intro d hd
        rcases List.mem_append.mp hd with hd | hd
        · exact hlt d hd
        · obtain rfl := List.mem_singleton.mp hd
          exact hk
      · rw [ofDigits_append_singleton, hsum]
      · intro h
        have hhead : digits.head? = some 0 := by
          cases digits with
          | nil => exact absurd rfl hne
          | cons d rest => exact h
        exact absurd (hzero hhead).1 (Nat.ne_of_gt hm)

theorem toList_toString_int (i : Int) :
    (toString i).toList =
      if i < 0 then '-' :: Nat.toDigits 10 i.natAbs else Nat.toDigits 10 i.natAbs := by
  cases i with
  | ofNat n =>
      rw [if_neg (by simp)]
      exact Nat.toList_repr
  | negSucc n =>
      rw [if_pos (Int.negSucc_lt_zero n)]
      exact String.toList_append.trans (congrArg ('-' :: ·) Nat.toList_repr)

-- What a check of every member found holds of every member.
theorem forall_mem_of_all {α : Type} {p : α → Prop} [DecidablePred p] {l : List α}
    (h : (l.all fun a => decide (p a)) = true) : ∀ a ∈ l, p a :=
  fun a ha => of_decide_eq_true (List.all_eq_true.mp h a ha)

section Walks

variable {m : Type → Type} [Monad m] [LawfulMonad m] {α β γ : Type}

-- A walk that goes through for every single thing goes through.
theorem mapM_eq_pure {f : α → m β} {k : α → β} (xs : List α) (h : ∀ x ∈ xs, f x = pure (k x)) :
    xs.mapM f = pure (xs.map k) := by
  induction xs with
  | nil => rfl
  | cons x rest ih =>
      rw [List.mapM_cons, h x List.mem_cons_self,
        ih fun y hy => h y (List.mem_cons_of_mem x hy), pure_bind, pure_bind, List.map_cons]

theorem mapM_map_eq_pure {f : β → m γ} {g : α → β} {k : α → γ} (xs : List α)
    (h : ∀ x ∈ xs, f (g x) = pure (k x)) : (xs.map g).mapM f = pure (xs.map k) := by
  rw [List.mapM_map]
  exact mapM_eq_pure xs h

end Walks

namespace Uuid

theorem hexValue?_digitChar {d : Nat} (h : d < 16) : hexValue? d.digitChar = some d := by
  have hall : ∀ d < 16, hexValue? d.digitChar = some d := by decide
  exact hall d h

theorem hexValue?_hexDigit {nibble : Nat} (h : nibble < 16) :
    hexValue? (hexDigit nibble) = some nibble := by
  have hall : ∀ n < 16, hexValue? (hexDigit n) = some n := by decide
  exact hall nibble h

-- A fixed number of hexadecimal digits stands for the number as far as they go.
theorem ofDigits_nibbles (n k : Nat) :
    ofDigits 16 ((List.range k).map fun i => n / 16 ^ (k - 1 - i) % 16) = n % 16 ^ k := by
  induction k generalizing n with
  | zero => simp [ofDigits, Nat.mod_one]
  | succ k ih =>
      have hfront : (List.range k).map (fun i => n / 16 ^ (k + 1 - 1 - i) % 16) =
          (List.range k).map fun i => n / 16 / 16 ^ (k - 1 - i) % 16 := by
        refine List.map_congr_left fun i hi => ?_
        have hi := List.mem_range.mp hi
        rw [Nat.div_div_eq_div_mul, show k + 1 - 1 - i = k - 1 - i + 1 by omega, Nat.pow_succ,
          Nat.mul_comm]
      rw [List.range_succ, List.map_append, List.map_singleton, ofDigits_append_singleton, hfront,
        ih, Nat.add_sub_cancel, Nat.sub_self, Nat.pow_zero, Nat.div_one, Nat.pow_succ,
        Nat.mul_comm (16 ^ k), Nat.mod_mul]
      omega

theorem ofChars?_chars (uuid : Uuid) : ofChars? uuid.chars = ofDigits? uuid.digits := by
  rfl

theorem ofText?_toText (uuid : Uuid) : ofText? uuid.toText = some uuid := by
  have hdigits : uuid.digits.mapM hexValue? =
      some ((List.range 32).map fun i => uuid.bits.toNat / 16 ^ (32 - 1 - i) % 16) :=
    mapM_map_eq_pure _ fun i _ => hexValue?_hexDigit (Nat.mod_lt _ (by decide))
  have hlength : uuid.digits.length = 32 := by
    rw [digits, List.length_map, List.length_range]
  have hlt : uuid.bits.toNat < 16 ^ 32 := uuid.bits.isLt
  rw [ofText?, toText, String.toList_ofList, ofChars?_chars, ofDigits?, if_pos hlength, hdigits,
    Option.map_some, ← ofDigits, ofDigits_nibbles, Nat.mod_eq_of_lt hlt, BitVec.ofNat_toNat,
    BitVec.setWidth_eq]

end Uuid

end Dataflow
