import Mathlib.Data.Rat.Floor
import MathKernel.Proofs.Number.Nearest

/-!
# Integer parts of floating-point numbers

The integer part of a number is a number: either the number itself, or an integer of at most 53
bits. So dropping the fraction is exact, and an integer is written with its own digits as long as
it fits 64 bits.

## Main results

* `Binary64.toRat?_trunc` — dropping the fraction is exact
* `Binary64.toInt64_of_toRat?` — an integer within the bounds, else the bound
-/

namespace MathKernel

namespace Binary64

/-- The integer part of a magnitude. -/
theorem integerPart_eq_floor (m : Nat) (e : Int) :
    (integerPart m e : Int) = ⌊(m : ℚ) * 2 ^ e⌋ := by
  cases e with
  | ofNat k =>
    have hinteger : (m : ℚ) * 2 ^ (Int.ofNat k) = ((m * pow2 k : Nat) : ℚ) := by
      rw [Nat.cast_mul, cast_pow2, Int.ofNat_eq_natCast, zpow_natCast]
    rw [hinteger, Int.floor_natCast, integerPart]
  | negSucc k =>
    have hquotient : (m : ℚ) * 2 ^ (Int.negSucc k) = m / (pow2 (k + 1) : Nat) := by
      rw [zpow_negSucc, cast_pow2, div_eq_mul_inv]
    rw [hquotient, integerPart, Rat.floor_natCast_div_natCast]
    rfl

/-- An integer of at most 53 bits is a number. -/
theorem exists_canonical_natCast {n : Nat} (hn : 0 < n) (hmax : n < 2 ^ 53) :
    ∃ m e, Canonical m e ∧ 0 < m ∧ (m : ℚ) * 2 ^ e = n := by
  have hlog : n.log2 ≤ 52 := by
    have := (Nat.log2_lt hn.ne').2 hmax
    omega
  obtain ⟨j, hj⟩ := Nat.exists_eq_add_of_le hlog
  have hlow : 2 ^ 52 ≤ n * 2 ^ j := by
    rw [hj, Nat.pow_add]
    exact Nat.mul_le_mul_right _ (Nat.log2_self_le hn.ne')
  have hhigh : n * 2 ^ j < 2 ^ 53 := by
    rw [show 53 = n.log2 + 1 + j by omega, Nat.pow_add]
    exact Nat.mul_lt_mul_of_pos_right Nat.lt_log2_self (Nat.two_pow_pos j)
  refine ⟨n * 2 ^ j, -(j : Int), ⟨hhigh, ?_, ?_, .inl hlow⟩, by omega, ?_⟩
  · unfold minExponent
    omega
  · unfold maxExponent
    omega
  · rw [zpow_neg, zpow_natCast, Nat.cast_mul, Nat.cast_pow, Nat.cast_ofNat]
    exact mul_inv_cancel_right₀ (by positivity) _

/-- A number rounds to itself. -/
theorem rounds_self (m : Nat) (e : Int) : Rounds m e (m * 2 ^ e) := by
  have hunit := two_zpow_pos e
  have hlower : (m - roomBelow m e) * 2 ^ e < m * 2 ^ e := by
    have := roomBelow_pos m e
    gcongr
    linarith
  have hupper : (m : ℚ) * 2 ^ e < (m + 1 / 2) * 2 ^ e := by
    gcongr
    linarith
  exact ⟨hlower.le, hupper.le, fun _ => hlower, fun _ => hupper⟩

/-- The integer part of a number is a number. -/
theorem exists_canonical_integerPart {m : Nat} {e : Int} (h : Canonical m e)
    (hpos : 0 < integerPart m e) :
    ∃ m' e', Canonical m' e' ∧ 0 < m' ∧ (m' : ℚ) * 2 ^ e' = integerPart m e := by
  cases e with
  | ofNat k =>
    refine ⟨m, _, h, ?_, ?_⟩
    · exact Nat.pos_of_mul_pos_right hpos
    · rw [integerPart, Nat.cast_mul, cast_pow2, Int.ofNat_eq_natCast, zpow_natCast]
  | negSucc k =>
    refine exists_canonical_natCast hpos ?_
    exact (Nat.div_le_self m _).trans_lt h.1

/-- Dropping the fraction is exact. -/
theorem toRat?_trunc {s : Bool} {m : Nat} {e : Int} (h : Canonical m e) :
    (trunc (.finite s m e h)).toRat? = some (signed s (integerPart m e)) := by
  rw [trunc]
  rcases Nat.eq_zero_or_pos (integerPart m e) with hzero | hpos
  · rw [hzero, ofRatio, if_pos rfl, zero, toRat?, Nat.cast_zero, zero_mul]
  · obtain ⟨m', e', hcanonical, hm, hvalue⟩ := exists_canonical_integerPart h hpos
    have hrounds : Rounds m' e' ((integerPart m e : Nat) / (1 : Nat)) := by
      rw [Nat.cast_one, div_one, ← hvalue]
      exact rounds_self m' e'
    rw [ofRatio_eq_finite hcanonical hm Nat.one_pos hrounds, toRat?, hvalue]

/-- An integer is kept within the bounds of 64 bits. -/
theorem toInt64_of_toRat? {x : Binary64} {n : Int} (h : x.toRat? = some (n : ℚ)) :
    x.toInt64 = clampInt64 n := by
  match x, h with
  | .finite s m e hcanonical, h =>
    rw [toRat?, Option.some.injEq] at h
    have hfloor := integerPart_eq_floor m e
    rw [toInt64]
    cases s with
    | false =>
      rw [signed, if_neg Bool.false_ne_true] at h
      rw [h, Int.floor_intCast] at hfloor
      simp [hfloor]
    | true =>
      rw [signed, if_pos rfl, neg_eq_iff_eq_neg, ← Int.cast_neg] at h
      rw [h, Int.floor_intCast] at hfloor
      simp [hfloor]

end Binary64

end MathKernel
