import Mathlib.Algebra.Order.Field.Power
import Mathlib.Algebra.Order.Field.Rat
import Mathlib.Data.List.TakeWhile
import Mathlib.Tactic.Linarith
import Mathlib.Tactic.Ring
import MathKernel.Number.Decimal

/-!
# Decimal digits

The digits of a natural number spell it, and their number says between which powers of ten it
lies. An exponent is read as the integer that is written.

## Main results

* `digitsToNat_toDigits` — digits spell their number
* `pow_decimalWidth_le`, `lt_pow_decimalWidth` — the size of a number of known width
* `Decimal.readExponent?_toString` — an exponent as it is written
-/

namespace MathKernel

/-! ### Digits of natural numbers -/

theorem digitsToNat_eq (digits : List Char) : digitsToNat digits = Nat.ofDigitChars 10 digits 0 :=
  Nat.ofDigitChars_eq_foldl.symm

theorem digitsToNat_toDigits (n : Nat) : digitsToNat (Nat.toDigits 10 n) = n := by
  rw [digitsToNat_eq, Nat.ofDigitChars_ten_toDigits]

theorem digitsToNat_append (left right : List Char) :
    digitsToNat (left ++ right) = 10 ^ right.length * digitsToNat left + digitsToNat right := by
  simp only [digitsToNat_eq, Nat.ofDigitChars_append]
  exact Nat.ofDigitChars_eq_ofDigitChars_zero

theorem digitsToNat_zeros (n : Nat) : digitsToNat (List.replicate n '0') = 0 := by
  rw [digitsToNat_eq, Nat.ofDigitChars_replicate_zero, Nat.mul_zero]

theorem isDigit_of_mem_toDigits {n : Nat} {c : Char} (h : c ∈ Nat.toDigits 10 n) :
    c.isDigit = true :=
  Nat.isDigit_of_mem_toDigits (by decide) (by decide) h

/-- Only zero is written with a leading zero, and it has one digit. -/
theorem toDigits_head {n : Nat} {c : Char} {rest : List Char}
    (h : Nat.toDigits 10 n = '0' :: c :: rest) : False := by
  induction n using Nat.strong_induction_on generalizing c rest with
  | _ n ih =>
    rw [Nat.toDigits_eq_if (by decide)] at h
    split at h
    · simp at h
    · next hlarge =>
      -- The digits before the last are those of a tenth, which is not zero.
      cases hdigits : Nat.toDigits 10 (n / 10) with
      | nil => exact Nat.toDigits_ne_nil hdigits
      | cons first more =>
        rw [hdigits, List.cons_append, List.cons.injEq] at h
        obtain ⟨rfl, -⟩ := h
        cases more with
        | nil =>
          have hvalue : n / 10 = 0 := by
            rw [← Nat.ofDigitChars_ten_toDigits (n := n / 10), hdigits]
            rfl
          omega
        | cons second others => exact ih (n / 10) (by omega) hdigits

theorem toList_toString_ofNat (n : Nat) : (toString (n : Int)).toList = Nat.toDigits 10 n :=
  Nat.toList_repr

theorem toList_toString_negSucc (n : Nat) :
    (toString (Int.negSucc n)).toList = '-' :: Nat.toDigits 10 (n + 1) := by
  change ("-" ++ Nat.repr (n + 1)).toList = _
  rw [String.toList_append, Nat.toList_repr]
  rfl

theorem mem_toString {n : Int} {c : Char} (h : c ∈ (toString n).toList) :
    c.isDigit = true ∨ c = '-' := by
  cases n with
  | ofNat n =>
    rw [Int.ofNat_eq_natCast, toList_toString_ofNat] at h
    exact .inl (isDigit_of_mem_toDigits h)
  | negSucc n =>
    rw [toList_toString_negSucc] at h
    exact (List.mem_cons.1 h).symm.imp_left isDigit_of_mem_toDigits

theorem toList_toString_ne_nil (n : Int) : (toString n).toList ≠ [] := by
  cases n with
  | ofNat n =>
    rw [Int.ofNat_eq_natCast, toList_toString_ofNat]
    exact Nat.toDigits_ne_nil
  | negSucc n =>
    rw [toList_toString_negSucc]
    exact List.cons_ne_nil _ _

/-! ### Width -/

theorem decimalWidth_pos (n : Nat) : 0 < decimalWidth n :=
  Nat.length_toDigits_pos

theorem lt_pow_decimalWidth (n : Nat) : (n : ℚ) < 10 ^ (decimalWidth n : Int) := by
  rw [zpow_natCast]
  exact_mod_cast (Nat.length_toDigits_le_iff (by norm_num) (decimalWidth_pos n)).1 le_rfl

theorem pow_decimalWidth_le {n : Nat} (h : 0 < n) :
    (10 : ℚ) ^ ((decimalWidth n : Int) - 1) ≤ n := by
  obtain ⟨k, hk⟩ := Nat.exists_eq_add_of_lt (decimalWidth_pos n)
  have hexponent : (decimalWidth n : Int) - 1 = (k : Int) := by omega
  rw [hexponent, zpow_natCast]
  have hle : 10 ^ k ≤ n := by
    by_contra hlt
    rcases Nat.eq_zero_or_pos k with rfl | hkpos
    · rw [pow_zero] at hlt
      omega
    · have := (Nat.length_toDigits_le_iff (by norm_num) hkpos).2 (not_le.1 hlt)
      unfold decimalWidth at hk
      omega
  exact_mod_cast hle

/-! ### Reading -/

/-- A part ends where the text after it starts with something else. -/
theorem takeWhile_append_eq {p : Char → Bool} {part rest : List Char}
    (h : ∀ c ∈ part, p c = true) (hrest : ∀ c ∈ rest.head?, p c = false) :
    (part ++ rest).takeWhile p = part := by
  rw [List.takeWhile_append_of_pos h]
  cases rest with
  | nil => simp
  | cons c rest => simp [hrest c rfl]

theorem dropWhile_append_eq {p : Char → Bool} {part rest : List Char}
    (h : ∀ c ∈ part, p c = true) (hrest : ∀ c ∈ rest.head?, p c = false) :
    (part ++ rest).dropWhile p = rest := by
  rw [List.dropWhile_append_of_pos h]
  cases rest with
  | nil => rfl
  | cons c rest => simp [hrest c rfl]

namespace Decimal

theorem splitFraction_point {fraction tail : List Char} (h : ∀ c ∈ fraction, c.isDigit = true)
    (htail : ∀ c ∈ tail.head?, c.isDigit = false) :
    splitFraction ('.' :: (fraction ++ tail)) = (fraction, tail) := by
  rw [splitFraction, takeWhile_append_eq h htail, dropWhile_append_eq h htail]

/-- An exponent as it is written, with or without a plus. -/
theorem readExponent?_toString (exponent : Int) {plus : List Char}
    (hplus : plus = [] ∨ plus = ['+'] ∧ 0 ≤ exponent) :
    readExponent? ('e' :: plus ++ (toString exponent).toList) = some exponent := by
  have hdigits (n : Nat) : (Nat.toDigits 10 n).all Char.isDigit = true :=
    List.all_eq_true.2 fun c hc => isDigit_of_mem_toDigits hc
  cases exponent with
  | ofNat n =>
    rw [Int.ofNat_eq_natCast, toList_toString_ofNat]
    have hsign : splitSign (plus ++ Nat.toDigits 10 n) = (false, Nat.toDigits 10 n) := by
      rcases hplus with rfl | ⟨rfl, -⟩
      · rw [List.nil_append, splitSign.eq_def]
        split
        · next heq => exact absurd (isDigit_of_mem_toDigits (heq ▸ List.mem_cons_self)) (by decide)
        · next heq => exact absurd (isDigit_of_mem_toDigits (heq ▸ List.mem_cons_self)) (by decide)
        · rfl
      · rfl
    simp only [List.cons_append, readExponent?, hsign]
    simp [hdigits, Nat.toDigits_ne_nil, digitsToNat_toDigits]
  | negSucc n =>
    obtain rfl : plus = [] := hplus.resolve_right fun h => absurd h.2 (by simp)
    rw [toList_toString_negSucc]
    simp only [List.cons_append, List.nil_append, readExponent?, splitSign]
    simp [hdigits, digitsToNat_toDigits, Int.negSucc_eq]

end Decimal

end MathKernel
