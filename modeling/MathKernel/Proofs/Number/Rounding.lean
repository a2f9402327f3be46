import Mathlib.Algebra.Order.Field.Power
import Mathlib.Algebra.Order.Field.Rat
import Mathlib.Data.Nat.Log
import Mathlib.Tactic.FieldSimp
import Mathlib.Tactic.Linarith
import Mathlib.Tactic.Positivity
import Mathlib.Tactic.Ring
import MathKernel.Number.Binary64

/-!
# What rounds to a floating-point number

A quotient is rounded in the exponent in which its significand has 53 bits. The quotients that
round to a number fill an interval around it: half a unit in the last place to each side, but a
quarter below a power of two, where numbers lie twice as close. The ends belong to the interval if
the significand is even.

## Main definitions

* `Binary64.Rounds` — the interval of the rationals that round to a number

## Main results

* `Binary64.exponentFor_spec` — the exponent in which a quotient is rounded
* `Binary64.ofRatio_eq_finite` — quotients in the interval round to the number
-/

namespace MathKernel

namespace Binary64

/-- The distance to the lower end of the interval, in units of the last place. -/
def roomBelow (m : Nat) (e : Int) : ℚ :=
  if m = 2 ^ 52 ∧ minExponent < e then 1 / 4 else 1 / 2

/-- The rational rounds to `m * 2 ^ e`. -/
structure Rounds (m : Nat) (e : Int) (x : ℚ) : Prop where
  lower : (m - roomBelow m e) * 2 ^ e ≤ x
  upper : x ≤ (m + 1 / 2) * 2 ^ e
  lower_lt : m % 2 = 1 → (m - roomBelow m e) * 2 ^ e < x
  lt_upper : m % 2 = 1 → x < (m + 1 / 2) * 2 ^ e

theorem two_zpow_pos (e : Int) : (0 : ℚ) < 2 ^ e :=
  zpow_pos (by norm_num) e

theorem roomBelow_pos (m : Nat) (e : Int) : 0 < roomBelow m e := by
  unfold roomBelow
  split <;> norm_num

theorem roomBelow_le (m : Nat) (e : Int) : roomBelow m e ≤ 1 / 2 := by
  unfold roomBelow
  split <;> norm_num

/-! ### Rounding to an integer -/

/-- An integer within a half is the nearest one, and of two the even one. -/
theorem roundHalfEven_eq {num den m : Nat} (hden : 0 < den)
    (hlower : 2 * (den * m) ≤ 2 * num + den) (hupper : 2 * num ≤ 2 * (den * m) + den)
    (hodd : m % 2 = 1 → 2 * (den * m) < 2 * num + den ∧ 2 * num < 2 * (den * m) + den) :
    roundHalfEven num den = m := by
  have hdiv : den * (num / den) + num % den = num := Nat.div_add_mod num den
  have hrest : num % den < den := Nat.mod_lt num hden
  -- The integer is the quotient or the next one.
  have hcases : m = num / den ∨ m = num / den + 1 := by
    by_contra hneither
    rcases Nat.lt_or_ge m (num / den) with hless | hmore
    · have := Nat.mul_le_mul_left den (show m + 1 ≤ num / den by omega)
      rw [Nat.mul_add, Nat.mul_one] at this
      omega
    · have := Nat.mul_le_mul_left den (show num / den + 2 ≤ m by omega)
      rw [Nat.mul_add] at this
      omega
  unfold roundHalfEven
  dsimp only
  rcases hcases with hm | hm
  · rw [← hm] at hdiv ⊢
    split
    · rfl
    · split
      · omega
      · split
        · rfl
        · have := hodd (by omega)
          omega
  · have hnext : den * m = den * (num / den) + den := by rw [hm, Nat.mul_add, Nat.mul_one]
    split
    · omega
    · split
      · exact hm.symm
      · split
        · have := hodd (by omega)
          omega
        · exact hm.symm

/-! ### The exponent -/

theorem cast_pow2 (n : Nat) : ((pow2 n : Nat) : ℚ) = 2 ^ n :=
  Nat.cast_pow 2 n

theorem scaleDown_pos {num den : Nat} (hden : 0 < den) (e : Int) :
    0 < (scaleDown num den e).2 := by
  cases e with
  | ofNat k => exact Nat.mul_pos hden (Nat.pow_pos (by norm_num))
  | negSucc k => exact hden

theorem scaleDown_ratio (num den : Nat) (e : Int) :
    ((scaleDown num den e).1 : ℚ) / (scaleDown num den e).2 = num / den / 2 ^ e := by
  cases e with
  | ofNat k =>
    simp only [scaleDown, Nat.cast_mul, cast_pow2, Int.ofNat_eq_natCast, zpow_natCast]
    rw [div_div]
  | negSucc k =>
    simp only [scaleDown, Nat.cast_mul, cast_pow2, zpow_negSucc, div_inv_eq_mul]
    ring

/-- A quotient is rounded where its significand has 53 bits, or in the least exponent. -/
theorem exponentFor_spec {num den : Nat} (hnum : 0 < num) (hden : 0 < den) :
    ∃ e : Int, exponentFor num den = max minExponent e ∧
      (2 : ℚ) ^ (52 + e) ≤ num / den ∧ (num / den : ℚ) < 2 ^ (53 + e) := by
  have hdenq : (0 : ℚ) < den := Nat.cast_pos.2 hden
  have htwo : (2 : ℚ) ≠ 0 := by norm_num
  have hnumlow : (2 : ℚ) ^ (num.log2 : Int) ≤ num := by
    rw [zpow_natCast]
    exact_mod_cast Nat.log2_self_le hnum.ne'
  have hnumhigh : (num : ℚ) < 2 ^ ((num.log2 : Int) + 1) := by
    exact_mod_cast Nat.lt_log2_self
  have hdenlow : (2 : ℚ) ^ (den.log2 : Int) ≤ den := by
    rw [zpow_natCast]
    exact_mod_cast Nat.log2_self_le hden.ne'
  have hdenhigh : (den : ℚ) < 2 ^ ((den.log2 : Int) + 1) := by
    exact_mod_cast Nat.lt_log2_self
  set guess : Int := (num.log2 : Int) - (den.log2 : Int) - 53 with hguess
  -- The guess is exact or one too small.
  have hlow : (2 : ℚ) ^ (52 + guess) ≤ num / den := by
    rw [le_div_iff₀ hdenq]
    calc (2 : ℚ) ^ (52 + guess) * den
        ≤ 2 ^ (52 + guess) * 2 ^ ((den.log2 : Int) + 1) := by gcongr
      _ = 2 ^ (num.log2 : Int) := by
        rw [← zpow_add₀ htwo]
        congr 1
        omega
      _ ≤ num := hnumlow
  have hhigh : (num / den : ℚ) < 2 ^ (54 + guess) := by
    rw [div_lt_iff₀ hdenq]
    calc (num : ℚ) < 2 ^ ((num.log2 : Int) + 1) := hnumhigh
      _ = 2 ^ (54 + guess) * 2 ^ (den.log2 : Int) := by
        rw [← zpow_add₀ htwo]
        congr 1
        omega
      _ ≤ 2 ^ (54 + guess) * den := by gcongr
  have hfits : (scaleDown num den guess).1 < (scaleDown num den guess).2 * pow2 53 ↔
      (num / den : ℚ) < 2 ^ (53 + guess) := by
    have hpos : (0 : ℚ) < (scaleDown num den guess).2 := Nat.cast_pos.2 (scaleDown_pos hden guess)
    rw [zpow_add₀ htwo, ← div_lt_iff₀ (two_zpow_pos guess), ← scaleDown_ratio, div_lt_iff₀ hpos,
      mul_comm]
    exact_mod_cast Iff.rfl
  by_cases hsmall : (num / den : ℚ) < 2 ^ (53 + guess)
  · refine ⟨guess, ?_, hlow, hsmall⟩
    simp only [exponentFor, ← hguess, if_pos (hfits.2 hsmall)]
  · refine ⟨guess + 1, ?_, ?_, ?_⟩
    · simp only [exponentFor, ← hguess, if_neg (hfits.not.2 hsmall)]
    · rw [show (52 : Int) + (guess + 1) = 53 + guess by ring]
      exact le_of_not_gt hsmall
    · rw [show (53 : Int) + (guess + 1) = 54 + guess by ring]
      exact hhigh

theorem zpow_le_of_lt {a b : Int} {x : ℚ} (ha : (2 : ℚ) ^ a ≤ x) (hb : x < 2 ^ b) : a < b :=
  (zpow_lt_zpow_iff_right₀ (by norm_num)).1 (ha.trans_lt hb)

theorem exponentFor_eq {num den : Nat} (hnum : 0 < num) (hden : 0 < den) {e : Int}
    (hmin : minExponent ≤ e) (hlower : (2 : ℚ) ^ (52 + e) ≤ num / den)
    (hupper : (num / den : ℚ) < 2 ^ (53 + e)) : exponentFor num den = e := by
  obtain ⟨e', heq, hlower', hupper'⟩ := exponentFor_spec hnum hden
  have hle := zpow_le_of_lt hlower hupper'
  have hge := zpow_le_of_lt hlower' hupper
  rw [heq]
  omega

theorem exponentFor_eq_min {num den : Nat} (hnum : 0 < num) (hden : 0 < den)
    (h : (num / den : ℚ) < 2 ^ (52 + minExponent)) : exponentFor num den = minExponent := by
  obtain ⟨e, heq, hlower, -⟩ := exponentFor_spec hnum hden
  have hless := zpow_le_of_lt hlower h
  rw [heq]
  omega

/-- A quotient within half a unit of the last place is rounded to the significand. -/
theorem roundHalfEven_scaleDown {num den m : Nat} {e : Int} (hden : 0 < den)
    (hlower : (m - 1 / 2) * 2 ^ e ≤ (num / den : ℚ))
    (hupper : (num / den : ℚ) ≤ (m + 1 / 2) * 2 ^ e)
    (hodd : m % 2 = 1 → (m - 1 / 2) * 2 ^ e < (num / den : ℚ) ∧
      (num / den : ℚ) < (m + 1 / 2) * 2 ^ e) :
    roundHalfEven (scaleDown num den e).1 (scaleDown num den e).2 = m := by
  have hunit := two_zpow_pos e
  have hratio := scaleDown_ratio num den e
  have hpos : 0 < (scaleDown num den e).2 := scaleDown_pos hden e
  generalize (scaleDown num den e).1 = a at hratio ⊢
  generalize (scaleDown num den e).2 = b at hratio hpos ⊢
  have hposq : (0 : ℚ) < b := Nat.cast_pos.2 hpos
  -- In units of the last place the quotient is `a / b`.
  have hquotient : (num / den : ℚ) = a / b * 2 ^ e := by
    rw [hratio]
    field_simp
  rw [hquotient] at hlower hupper hodd
  simp only [mul_le_mul_iff_left₀ hunit, mul_lt_mul_iff_left₀ hunit, le_div_iff₀ hposq,
    lt_div_iff₀ hposq, div_le_iff₀ hposq, div_lt_iff₀ hposq] at hlower hupper hodd
  apply roundHalfEven_eq hpos
  · have : (2 * (b * m) : ℚ) ≤ 2 * a + b := by linarith
    exact_mod_cast this
  · have : (2 * a : ℚ) ≤ 2 * (b * m) + b := by linarith
    exact_mod_cast this
  · intro hm
    obtain ⟨hlow, hhigh⟩ := hodd hm
    have hlow : (2 * (b * m) : ℚ) < 2 * a + b := by linarith
    have hhigh : (2 * a : ℚ) < 2 * (b * m) + b := by linarith
    exact ⟨by exact_mod_cast hlow, by exact_mod_cast hhigh⟩

/-! ### Rounding -/

theorem pack_eq {s : Bool} {m : Nat} {e : Int} (h : Canonical m e) :
    pack s m e = .finite s m e h := by
  have hne : m ≠ pow2 53 := Nat.ne_of_lt h.1
  simp only [pack, if_neg hne, dif_pos h]

theorem pack_carried {s : Bool} {e : Int} (h : Canonical (pow2 52) e) :
    pack s (pow2 53) (e - 1) = .finite s (pow2 52) e h := by
  simp only [pack, if_true, Int.sub_add_cancel]
  exact dif_pos h

theorem Rounds.pos {m : Nat} {e : Int} {x : ℚ} (h : Rounds m e x) (hm : 0 < m) : 0 < x := by
  have hroom := roomBelow_le m e
  have hone : (1 : ℚ) ≤ m := by exact_mod_cast hm
  have hpos : 0 < (m - roomBelow m e) * (2 : ℚ) ^ e := mul_pos (by linarith) (two_zpow_pos e)
  exact hpos.trans_le h.lower

theorem Rounds.lt_pow {m : Nat} {e : Int} {x : ℚ} (h : Rounds m e x)
    (hcanonical : Canonical m e) : x < 2 ^ (53 + e) := by
  have hmax : (m : ℚ) + 1 ≤ 2 ^ (53 : Int) := by
    have : m + 1 ≤ 2 ^ 53 := hcanonical.1
    exact_mod_cast this
  have hunit := two_zpow_pos e
  calc x ≤ (m + 1 / 2) * 2 ^ e := h.upper
    _ < 2 ^ (53 : Int) * 2 ^ e := by
      gcongr
      linarith
    _ = 2 ^ (53 + e) := (zpow_add₀ (by norm_num) 53 e).symm

/-- Only in the least exponent does something below 53 bits round to a number other than a power
of two. -/
theorem exponent_eq_min {m : Nat} {e : Int} {x : ℚ} (hcanonical : Canonical m e)
    (h : Rounds m e x) (hcarry : ¬((m = 2 ^ 52 ∧ minExponent < e) ∧ x < 2 ^ (52 + e)))
    (hless : x < 2 ^ (52 + e)) : e = minExponent := by
  by_contra hne
  have hnormal : 2 ^ 52 ≤ m := hcanonical.2.2.2.resolve_right hne
  have hmin : minExponent < e := lt_of_le_of_ne hcanonical.2.1 (Ne.symm hne)
  have hmore : m ≠ 2 ^ 52 := fun heq => hcarry ⟨⟨heq, hmin⟩, hless⟩
  have hcast : (2 : ℚ) ^ 52 + 1 ≤ m := by
    have : 2 ^ 52 + 1 ≤ m := by omega
    exact_mod_cast this
  have hroom := roomBelow_le m e
  have : (2 : ℚ) ^ (52 + e) ≤ x := by
    calc (2 : ℚ) ^ (52 + e) = 2 ^ 52 * 2 ^ e := zpow_add₀ (by norm_num) 52 e
      _ ≤ (m - roomBelow m e) * 2 ^ e := by
        gcongr
        linarith
      _ ≤ x := h.lower
  exact absurd hless (not_lt.2 this)

/-- Just below a power of two a quotient is rounded in the next smaller exponent, up to the
power. -/
theorem roundHalfEven_below_pow {num den : Nat} {e : Int} (hnum : 0 < num) (hden : 0 < den)
    (hmin : minExponent < e) (hlower : (2 ^ 52 - 1 / 4 : ℚ) * 2 ^ e ≤ num / den)
    (hless : (num / den : ℚ) < 2 ^ (52 + e)) :
    exponentFor num den = e - 1 ∧
      roundHalfEven (scaleDown num den (e - 1)).1 (scaleDown num den (e - 1)).2 = 2 ^ 53 := by
  have hunit := two_zpow_pos (e - 1)
  have hhalf : (2 : ℚ) ^ e = 2 * 2 ^ (e - 1) := by
    rw [← zpow_one_add₀ (by norm_num)]
    congr 1
    ring
  have hpower : (2 : ℚ) ^ (52 + e) = 2 ^ 53 * 2 ^ (e - 1) := by
    rw [zpow_add₀ (by norm_num), hhalf]
    ring
  rw [hhalf] at hlower
  constructor
  · apply exponentFor_eq hnum hden (by omega)
    · have hsplit : (2 : ℚ) ^ (52 + (e - 1)) = 2 ^ 52 * 2 ^ (e - 1) :=
        zpow_add₀ (by norm_num) 52 (e - 1)
      rw [hsplit]
      linarith
    · rw [show (53 : Int) + (e - 1) = 52 + e by ring]
      exact hless
  · -- A quarter of a unit is half a unit of the smaller exponent.
    apply roundHalfEven_scaleDown hden
    · push_cast
      linarith
    · push_cast
      linarith
    · norm_num

/-- A quotient in the interval around a number rounds to it. -/
theorem ofRatio_eq_finite {s : Bool} {num den m : Nat} {e : Int} (hcanonical : Canonical m e)
    (hm : 0 < m) (hden : 0 < den) (h : Rounds m e (num / den)) :
    ofRatio s num den = .finite s m e hcanonical := by
  have hdenq : (0 : ℚ) < den := Nat.cast_pos.2 hden
  have hnum : 0 < num := by
    have := (div_pos_iff_of_pos_right hdenq).1 (h.pos hm)
    exact_mod_cast this
  rw [ofRatio, if_neg hnum.ne']
  dsimp only
  by_cases hcarry : (m = 2 ^ 52 ∧ minExponent < e) ∧ (num / den : ℚ) < 2 ^ (52 + e)
  · -- Below a power of two the significand is carried.
    obtain ⟨⟨rfl, hmin⟩, hless⟩ := hcarry
    have hlower := h.lower
    rw [roomBelow, if_pos ⟨rfl, hmin⟩] at hlower
    push_cast at hlower
    obtain ⟨hexponent, hround⟩ := roundHalfEven_below_pow hnum hden hmin hlower hless
    rw [hexponent, hround]
    exact pack_carried hcanonical
  · -- Otherwise the quotient is rounded in the exponent of the number.
    have hlower : (m - 1 / 2 : ℚ) * 2 ^ e ≤ (m - roomBelow m e) * 2 ^ e := by
      gcongr
      exact roomBelow_le m e
    have hexponent : exponentFor num den = e := by
      by_cases hfull : (2 : ℚ) ^ (52 + e) ≤ num / den
      · exact exponentFor_eq hnum hden hcanonical.2.1 hfull (h.lt_pow hcanonical)
      · rw [not_le] at hfull
        have hmin := exponent_eq_min hcanonical h hcarry hfull
        rw [hmin] at hfull ⊢
        exact exponentFor_eq_min hnum hden hfull
    have hround : roundHalfEven (scaleDown num den e).1 (scaleDown num den e).2 = m := by
      apply roundHalfEven_scaleDown hden (hlower.trans h.lower) h.upper
      intro hodd
      exact ⟨hlower.trans_lt (h.lower_lt hodd), h.lt_upper hodd⟩
    rw [hexponent, hround]
    exact pack_eq hcanonical

end Binary64

end MathKernel
