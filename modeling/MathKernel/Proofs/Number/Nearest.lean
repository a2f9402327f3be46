import MathKernel.Proofs.Number.Shortest
import MathKernel.Proofs.Semantics.Scalars

/-!
# Nearest floating-point numbers

A quotient is rounded on the grid of the exponent in which it has 53 bits. Numbers with a greater
exponent lie on that grid, and those with a smaller one lie below the quotient and below a
multiple of the grid. So the nearest multiple is the nearest number.

## Main definitions

* `Binary64.toRat?` — the rational that a finite number is
* `Binary64.IsNearest` — of all finite numbers the nearest one, of two the even one

## Main results

* `Binary64.roundHalfEven_nearest` — the nearest integer
* `Binary64.isNearest_ofRatio` — a quotient is rounded to the nearest number
* `Decimal.isNearest_toBinary64` — so is a decimal
-/

namespace MathKernel

namespace Binary64

/-! ### The nearest integer -/

section Integer

variable (num : Nat) {den : Nat} (hden : 0 < den)

include hden

/-- Rounding changes a quotient by at most a half, and by a half only to reach an even integer. -/
theorem roundHalfEven_half :
    2 * (den * roundHalfEven num den) ≤ 2 * num + den ∧
      2 * num ≤ 2 * (den * roundHalfEven num den) + den ∧
      (roundHalfEven num den % 2 = 1 → 2 * (den * roundHalfEven num den) < 2 * num + den ∧
        2 * num < 2 * (den * roundHalfEven num den) + den) := by
  have hdiv : den * (num / den) + num % den = num := Nat.div_add_mod num den
  have hrest : num % den < den := Nat.mod_lt num hden
  have hnext : den * (num / den + 1) = den * (num / den) + den := Nat.mul_succ den _
  unfold roundHalfEven
  dsimp only
  split
  · omega
  · split
    · omega
    · split <;> omega

theorem abs_sub_roundHalfEven :
    |(num / den : ℚ) - roundHalfEven num den| ≤ 1 / 2 ∧
      (roundHalfEven num den % 2 = 1 → |(num / den : ℚ) - roundHalfEven num den| < 1 / 2) := by
  have hdenq : (0 : ℚ) < den := Nat.cast_pos.2 hden
  obtain ⟨hlower, hupper, hodd⟩ := roundHalfEven_half num hden
  generalize roundHalfEven num den = r at hlower hupper hodd ⊢
  have hratio : (num / den : ℚ) - r = (num - den * r) / den := by
    field_simp
  rw [hratio, abs_div, abs_of_pos hdenq, div_le_iff₀ hdenq, div_lt_iff₀ hdenq, abs_le, abs_lt]
  refine ⟨⟨?_, ?_⟩, fun h => ⟨?_, ?_⟩⟩
  · have : (2 * (den * r) : ℚ) ≤ 2 * num + den := by exact_mod_cast hlower
    linarith
  · have : (2 * num : ℚ) ≤ 2 * (den * r) + den := by exact_mod_cast hupper
    linarith
  · have : (2 * (den * r) : ℚ) < 2 * num + den := by exact_mod_cast (hodd h).1
    linarith
  · have : (2 * num : ℚ) < 2 * (den * r) + den := by exact_mod_cast (hodd h).2
    linarith

/-- No other integer is nearer to a quotient than the one that it is rounded to, and if one is as
near, that one is even. -/
theorem roundHalfEven_nearest {k : Int} (hk : k ≠ roundHalfEven num den) :
    |(num / den : ℚ) - roundHalfEven num den| ≤ |(num / den : ℚ) - k| ∧
      (|(num / den : ℚ) - roundHalfEven num den| = |(num / den : ℚ) - k| →
        roundHalfEven num den % 2 = 0) := by
  obtain ⟨hnear, hodd⟩ := abs_sub_roundHalfEven num hden
  generalize roundHalfEven num den = r at hk hnear hodd ⊢
  -- Two integers are at least one apart, so the other one is at least half away.
  have hapart : (1 : ℚ) ≤ |(k : ℚ) - r| := by
    have : (1 : Int) ≤ |k - r| := Int.one_le_abs (sub_ne_zero.2 hk)
    exact_mod_cast this
  have hfar : 1 / 2 ≤ |(num / den : ℚ) - k| := by
    have htriangle : |(k : ℚ) - r| ≤ |(num / den : ℚ) - r| + |(num / den : ℚ) - k| := by
      rw [show (k : ℚ) - r = (num / den - r) - (num / den - k) by ring]
      exact abs_sub _ _
    linarith
  refine ⟨hnear.trans hfar, fun heq => ?_⟩
  by_contra hne
  have := hodd (by omega)
  linarith

end Integer

/-! ### The nearest multiple of a power of two -/

/-- A magnitude with a sign. -/
def signed (negative : Bool) (q : ℚ) : ℚ :=
  if negative then -q else q

/-- The rational that a finite number is. -/
def toRat? : Binary64 → Option ℚ
  | .finite s m e _ => some (signed s (m * 2 ^ e))
  | .nan | .infinity _ => none

/-- A quotient is rounded to the nearest multiple of the unit. -/
theorem roundHalfEven_scaleDown_nearest {num den : Nat} (hden : 0 < den) (e : Int) {k : Int}
    (hk : k ≠ roundHalfEven (scaleDown num den e).1 (scaleDown num den e).2) :
    |(num / den : ℚ) - roundHalfEven (scaleDown num den e).1 (scaleDown num den e).2 * 2 ^ e| ≤
        |(num / den : ℚ) - k * 2 ^ e| ∧
      (|(num / den : ℚ) - roundHalfEven (scaleDown num den e).1 (scaleDown num den e).2 * 2 ^ e| =
        |(num / den : ℚ) - k * 2 ^ e| →
        roundHalfEven (scaleDown num den e).1 (scaleDown num den e).2 % 2 = 0) := by
  have hunit := two_zpow_pos e
  obtain ⟨hle, heven⟩ := roundHalfEven_nearest _ (scaleDown_pos hden e) hk
  rw [scaleDown_ratio] at hle heven
  generalize roundHalfEven (scaleDown num den e).1 (scaleDown num den e).2 = r at hle heven ⊢
  -- In units of the last place the distances are those to integers.
  have hscale (c : ℚ) : |(num / den : ℚ) - c * 2 ^ e| = |(num / den / 2 ^ e : ℚ) - c| * 2 ^ e := by
    rw [← abs_of_pos hunit, ← abs_mul, abs_of_pos hunit, sub_mul, div_mul_cancel₀ _ hunit.ne']
  rw [hscale, hscale]
  refine ⟨by gcongr, fun h => heven ?_⟩
  exact mul_right_cancel₀ hunit.ne' h

/-- A number with an exponent that is not smaller is a multiple of the unit. -/
theorem toRat?_onGrid {t : Bool} {n : Nat} {f e : Int} {h : Canonical n f} {w : ℚ}
    (hw : toRat? (.finite t n f h) = some w) (hle : e ≤ f) : ∃ k : Int, w = k * 2 ^ e := by
  obtain ⟨j, rfl⟩ := Int.le.dest hle
  rw [toRat?, Option.some.injEq] at hw
  refine ⟨(if t then -1 else 1) * (n * 2 ^ j), ?_⟩
  rw [← hw, signed, zpow_add₀ (by norm_num), zpow_natCast]
  split <;> push_cast <;> ring

/-- A number with a smaller exponent lies below the power of two. -/
theorem toRat?_lt {t : Bool} {n : Nat} {f e : Int} {h : Canonical n f} {w : ℚ}
    (hw : toRat? (.finite t n f h) = some w) (hlt : f < e) : w < 2 ^ (52 + e) := by
  rw [toRat?, Option.some.injEq] at hw
  have hunit := two_zpow_pos f
  have hmax : (n : ℚ) < 2 ^ (53 : Int) := by exact_mod_cast h.1
  have hmagnitude : (n : ℚ) * 2 ^ f < 2 ^ (52 + e) := by
    calc (n : ℚ) * 2 ^ f < 2 ^ (53 : Int) * 2 ^ f := by gcongr
      _ = 2 ^ (53 + f) := (zpow_add₀ (by norm_num) 53 f).symm
      _ ≤ 2 ^ (52 + e) := zpow_le_zpow_right₀ (by norm_num) (by omega)
  have hpos : (0 : ℚ) ≤ n * 2 ^ f := by positivity
  rw [← hw, signed]
  split <;> linarith

/-- Of all finite numbers the rounded multiple is the nearest. -/
theorem roundHalfEven_exponentFor_nearest {num den : Nat} (hnum : 0 < num) (hden : 0 < den)
    {r : Nat} {e : Int} (he : exponentFor num den = e)
    (hr : roundHalfEven (scaleDown num den e).1 (scaleDown num den e).2 = r) {y : Binary64} {w : ℚ}
    (hw : y.toRat? = some w) (hne : w ≠ r * 2 ^ e) :
    |(num / den : ℚ) - r * 2 ^ e| ≤ |(num / den : ℚ) - w| ∧
      (|(num / den : ℚ) - r * 2 ^ e| = |(num / den : ℚ) - w| → r % 2 = 0) := by
  subst hr
  match y, hw with
  | .finite t n f hcanonical, hw =>
    by_cases hle : e ≤ f
    · obtain ⟨k, rfl⟩ := toRat?_onGrid hw hle
      refine roundHalfEven_scaleDown_nearest hden e fun hk => hne ?_
      rw [hk, Int.cast_natCast]
    · -- The quotient has 53 bits in this exponent, so the power is a nearer multiple.
      obtain ⟨e', hmax, hlower, -⟩ := exponentFor_spec hnum hden
      have hmin : minExponent ≤ f := hcanonical.2.1
      have hexponent : e' = e := by omega
      have hbelow := toRat?_lt hw (not_le.1 hle)
      rw [hexponent] at hlower
      have hpower : |(num / den : ℚ) - ((2 ^ 52 : Int) : ℚ) * 2 ^ e| < |(num / den : ℚ) - w| := by
        have hsplit : ((2 ^ 52 : Int) : ℚ) * 2 ^ e = 2 ^ (52 + e) := by
          rw [zpow_add₀ (by norm_num)]
          norm_num
        rw [hsplit, abs_of_nonneg (by linarith), abs_of_pos (by linarith)]
        linarith
      by_cases hk : (2 ^ 52 : Int) = roundHalfEven (scaleDown num den e).1 (scaleDown num den e).2
      · rw [hk, Int.cast_natCast] at hpower
        exact ⟨hpower.le, fun heq => absurd heq hpower.ne⟩
      · have hless := (roundHalfEven_scaleDown_nearest hden e hk).1.trans_lt hpower
        exact ⟨hless.le, fun heq => absurd heq hless.ne⟩

/-! ### The nearest number -/

/-- The value is finite, and no other finite number is nearer to the rational; if one is as near,
the significand of the value is even. -/
def IsNearest (q : ℚ) : Binary64 → Prop
  | .finite s m e _ => ∀ y w, toRat? y = some w → w ≠ signed s (m * 2 ^ e) →
    |q - signed s (m * 2 ^ e)| ≤ |q - w| ∧
      (|q - signed s (m * 2 ^ e)| = |q - w| → m % 2 = 0)
  | .nan | .infinity _ => False

theorem signed_signed (negative : Bool) (q : ℚ) : signed negative (signed negative q) = q := by
  cases negative <;> simp [signed]

theorem abs_signed_sub (negative : Bool) (q w : ℚ) :
    |signed negative q - w| = |q - signed negative w| := by
  cases negative
  · rfl
  · rw [signed, if_pos rfl, signed, if_pos rfl, ← abs_neg]
    congr 1
    ring

/-- With a number its opposite is one. -/
theorem exists_toRat?_signed {y : Binary64} {w : ℚ} (h : y.toRat? = some w) (negative : Bool) :
    ∃ y' : Binary64, y'.toRat? = some (signed negative w) := by
  match y, h with
  | .finite t n f hcanonical, h =>
    cases negative with
    | false => exact ⟨_, h⟩
    | true =>
      refine ⟨.finite (!t) n f hcanonical, ?_⟩
      rw [toRat?, Option.some.injEq] at h ⊢
      rw [← h]
      cases t <;> simp [signed]

/-- A packed number has the value of the rounded significand, and is even with it. -/
theorem of_pack_eq_finite {s t : Bool} {r m : Nat} {e f : Int} {h : Canonical m f}
    (hpack : pack s r e = .finite t m f h) :
    t = s ∧ (m : ℚ) * 2 ^ f = r * 2 ^ e ∧ (r % 2 = 0 → m % 2 = 0) := by
  unfold pack at hpack
  by_cases hcarry : r = pow2 53
  · simp only [if_pos hcarry] at hpack
    split at hpack
    · cases hpack
      refine ⟨rfl, ?_, fun _ => rfl⟩
      rw [hcarry, cast_pow2, cast_pow2, zpow_add₀ (by norm_num)]
      ring
    · cases hpack
  · simp only [if_neg hcarry] at hpack
    split at hpack
    · cases hpack
      exact ⟨rfl, rfl, id⟩
    · cases hpack

theorem isNearest_zero (negative : Bool) {q : ℚ}
    (h : ∀ y w, toRat? y = some w → w ≠ 0 → |q| ≤ |q - w|) : IsNearest q (zero negative) := by
  intro y w hw hne
  have hzero : signed negative ((0 : Nat) * 2 ^ minExponent) = 0 := by
    cases negative <;> simp [signed]
  rw [hzero] at hne ⊢
  rw [sub_zero]
  exact ⟨h y w hw hne, fun _ => rfl⟩

/-- A number other than zero is at least the least positive one. -/
theorem le_abs_toRat? {y : Binary64} {w : ℚ} (h : y.toRat? = some w) (hne : w ≠ 0) :
    2 ^ minExponent ≤ |w| := by
  match y, h with
  | .finite t n f hcanonical, h =>
    rw [toRat?, Option.some.injEq] at h
    have hmagnitude : |w| = n * 2 ^ f := by
      have hpos : (0 : ℚ) ≤ n * 2 ^ f := by positivity
      rw [← h, signed]
      split
      · rw [abs_neg, abs_of_nonneg hpos]
      · exact abs_of_nonneg hpos
    have hn : n ≠ 0 := by
      rintro rfl
      rw [Nat.cast_zero, zero_mul] at hmagnitude
      exact hne (abs_eq_zero.1 hmagnitude)
    rw [hmagnitude]
    calc (2 : ℚ) ^ minExponent ≤ 2 ^ f := zpow_le_zpow_right₀ (by norm_num) hcanonical.2.1
      _ = 1 * 2 ^ f := (one_mul _).symm
      _ ≤ n * 2 ^ f := by
        gcongr
        exact_mod_cast Nat.one_le_iff_ne_zero.2 hn

/-- What is smaller than half the least positive number is nearest to zero. -/
theorem isNearest_zero_of_lt (negative : Bool) {q : ℚ} (h : |q| < 2 ^ (-1075 : Int)) :
    IsNearest q (zero negative) := by
  refine isNearest_zero negative fun y w hw hne => ?_
  have hleast := le_abs_toRat? hw hne
  have htwice : (2 : ℚ) ^ minExponent = 2 * 2 ^ (-1075 : Int) := by
    rw [← zpow_one_add₀ (by norm_num)]
    rfl
  have htriangle : |w| - |q| ≤ |q - w| := by
    rw [abs_sub_comm]
    exact abs_sub_abs_le_abs_sub w q
  linarith

/-- A quotient that is rounded to a finite number is rounded to the nearest one. -/
theorem isNearest_ofRatio {s : Bool} {num den : Nat} (hden : 0 < den)
    (hfinite : (ofRatio s num den).toRat? ≠ none) :
    IsNearest (signed s (num / den)) (ofRatio s num den) := by
  by_cases hnum : num = 0
  · subst hnum
    rw [ofRatio, if_pos rfl]
    refine isNearest_zero s fun y w _ _ => ?_
    cases s <;> simp [signed]
  · cases hvalue : ofRatio s num den with
    | nan | infinity => rw [hvalue] at hfinite; exact absurd rfl hfinite
    | finite t m f hcanonical =>
      rw [ofRatio, if_neg hnum] at hvalue
      obtain ⟨rfl, hsame, heven⟩ := of_pack_eq_finite hvalue
      intro y w hw hne
      rw [hsame] at hne ⊢
      -- Signs are moved to the other number.
      obtain ⟨y', hw'⟩ := exists_toRat?_signed hw t
      rw [abs_signed_sub, signed_signed, abs_signed_sub]
      obtain ⟨hle, htie⟩ := roundHalfEven_exponentFor_nearest (Nat.pos_of_ne_zero hnum) hden rfl
        rfl hw' fun heq => hne (by rw [← heq, signed_signed])
      exact ⟨hle, fun heq => heven (htie heq)⟩

end Binary64

namespace Decimal

open Binary64 (toRat? signed IsNearest zero)

theorem toRat_eq (d : Decimal) :
    d.toRat = signed d.negative (d.coefficient * 10 ^ d.exponent) := by
  obtain ⟨negative, c, g⟩ := d
  cases g with
  | ofNat k =>
    cases negative <;>
      simp [toRat, signed, Rat.mkRat_eq_div, cast_pow10]
  | negSucc k =>
    cases negative <;>
      simp [toRat, signed, Rat.mkRat_eq_div, cast_pow10, zpow_negSucc, div_eq_mul_inv]

theorem abs_toRat (d : Decimal) : |d.toRat| = d.coefficient * 10 ^ d.exponent := by
  have hpos : (0 : ℚ) ≤ d.coefficient * 10 ^ d.exponent :=
    mul_nonneg (Nat.cast_nonneg _) (ten_zpow_pos _).le
  rw [toRat_eq, signed]
  split
  · rw [abs_neg, abs_of_nonneg hpos]
  · exact abs_of_nonneg hpos

/-- A decimal of few enough digits is too small for any number but zero. -/
theorem abs_toRat_lt {d : Decimal}
    (h : (decimalWidth d.coefficient : Int) + d.exponent < -400) :
    |d.toRat| < 2 ^ (-1075 : Int) := by
  have hten : (1 : ℚ) ≤ 10 := by norm_num
  rw [abs_toRat]
  calc (d.coefficient : ℚ) * 10 ^ d.exponent
      < 10 ^ (decimalWidth d.coefficient : Int) * 10 ^ d.exponent := by
        gcongr
        exact lt_pow_decimalWidth d.coefficient
    _ = 10 ^ ((decimalWidth d.coefficient : Int) + d.exponent) :=
        (zpow_add₀ (by norm_num) _ _).symm
    _ ≤ 10 ^ (-401 : Int) := zpow_le_zpow_right₀ hten (by omega)
    _ < 2 ^ (-1075 : Int) := ten_zpow_lt_half_least

/-- A decimal that is read as a finite number is read as the nearest one. -/
theorem isNearest_toBinary64 {d : Decimal} (h : d.toBinary64.toRat? ≠ none) :
    IsNearest d.toRat d.toBinary64 := by
  unfold toBinary64 at h ⊢
  dsimp only at h ⊢
  by_cases hzero : d.coefficient = 0
  · have hnone : |d.toRat| < 2 ^ (-1075 : Int) := by
      rw [abs_toRat, hzero, Nat.cast_zero, zero_mul]
      exact Binary64.two_zpow_pos _
    rw [if_pos hzero]
    exact Binary64.isNearest_zero_of_lt _ hnone
  · rw [if_neg hzero] at h ⊢
    by_cases hlarge : 400 < (decimalWidth d.coefficient : Int) + d.exponent
    · rw [if_pos hlarge] at h
      exact absurd rfl h
    · rw [if_neg hlarge] at h ⊢
      by_cases hsmall : (decimalWidth d.coefficient : Int) + d.exponent < -400
      · rw [if_pos hsmall]
        exact Binary64.isNearest_zero_of_lt _ (abs_toRat_lt hsmall)
      · rw [if_neg hsmall] at h ⊢
        rw [toRat_eq]
        -- The power of ten stands above or below the bar.
        cases hexponent : d.exponent with
        | ofNat k =>
          rw [hexponent] at h
          have hnear := Binary64.isNearest_ofRatio Nat.one_pos h
          rwa [Nat.cast_mul, cast_pow10, Nat.cast_one, div_one] at hnear
        | negSucc k =>
          rw [hexponent] at h
          have hnear := Binary64.isNearest_ofRatio (Nat.pow_pos (by norm_num)) h
          rw [zpow_negSucc, ← div_eq_mul_inv]
          rwa [← cast_pow10]

end Decimal

end MathKernel
