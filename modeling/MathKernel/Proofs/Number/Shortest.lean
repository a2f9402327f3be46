import Mathlib.Data.Nat.Cast.Order.Field
import Mathlib.Tactic.NormNum
import MathKernel.Proofs.Number.Digits
import MathKernel.Proofs.Number.Rounding

/-!
# The decimal that is written for a number

On every grid of decimals the two neighbours of a number are tried. With seventeen digits the
grid is finer than the interval that rounds to the number, so that one of the neighbours lies in
it. Hence the decimal that is found always rounds to the number.

## Main results

* `Decimal.contains_intervalOf` — a decimal is accepted exactly if it rounds to the number
* `Decimal.shortest_rounds` — the decimal that is written rounds to the number
* `Decimal.toBinary64_eq_finite` — a decimal that rounds to a number is read as this number
-/

namespace MathKernel

namespace Decimal

open Binary64 (Rounds roomBelow minExponent maxExponent Canonical)

theorem ten_zpow_pos (n : Int) : (0 : ℚ) < 10 ^ n :=
  zpow_pos (by norm_num) n

theorem cast_pow10 (n : Nat) : ((pow10 n : Nat) : ℚ) = 10 ^ n :=
  Nat.cast_pow 10 n

/-! ### Decimals on a grid -/

namespace Interval

/-- A number over the denominator is compared with a multiple of the grid after multiplying by
the first and the second factor. -/
def factors (i : Interval) : Int → Nat × Nat
  | .ofNat k => (1, i.denominator * pow10 k)
  | .negSucc k => (pow10 (k + 1), i.denominator)

theorem contains_eq (i : Interval) (grid : Int) (c : Nat) :
    i.contains grid c =
      if i.closed then
        decide ((i.value - i.below) * (i.factors grid).1 ≤ c * (i.factors grid).2 ∧
          c * (i.factors grid).2 ≤ (i.value + i.above) * (i.factors grid).1)
      else
        decide ((i.value - i.below) * (i.factors grid).1 < c * (i.factors grid).2 ∧
          c * (i.factors grid).2 < (i.value + i.above) * (i.factors grid).1) := by
  cases grid <;> rfl

/-- The greatest multiple of the grid that is not above the value. -/
def floorOn (i : Interval) (grid : Int) : Nat :=
  i.value * (i.factors grid).1 / (i.factors grid).2

theorem onGrid?_eq (i : Interval) (tie : Tie) (grid : Int) :
    i.onGrid? tie grid =
      match i.contains grid (i.floorOn grid), i.contains grid (i.floorOn grid + 1) with
      | false, false => none
      | true, false => some (i.floorOn grid)
      | false, true => some (i.floorOn grid + 1)
      | true, true =>
        let rest := i.value * (i.factors grid).1 % (i.factors grid).2
        if 2 * rest < (i.factors grid).2 then some (i.floorOn grid)
        else if (i.factors grid).2 < 2 * rest then some (i.floorOn grid + 1)
        else match tie with
          | .up => some (i.floorOn grid + 1)
          | .toEven =>
            some (if i.floorOn grid % 2 = 0 then i.floorOn grid else i.floorOn grid + 1) := by
  cases grid <;> rfl

theorem factors_fst_pos (i : Interval) (grid : Int) : 0 < (i.factors grid).1 := by
  cases grid with
  | ofNat k => exact Nat.one_pos
  | negSucc k => exact Nat.pow_pos (by norm_num)

theorem factors_snd (i : Interval) (grid : Int) :
    ((i.factors grid).2 : ℚ) = i.denominator * 10 ^ grid * (i.factors grid).1 := by
  cases grid with
  | ofNat k => simp [factors, cast_pow10]
  | negSucc k =>
    have hpos : (0 : ℚ) < 10 ^ (k + 1) := by positivity
    simp only [factors, cast_pow10, zpow_negSucc]
    field_simp

variable {i : Interval} (hden : 0 < i.denominator)
include hden

theorem mul_factor_le (grid : Int) (a c : Nat) :
    a * (i.factors grid).1 ≤ c * (i.factors grid).2 ↔
      (a / i.denominator : ℚ) ≤ c * 10 ^ grid := by
  have hdenq : (0 : ℚ) < i.denominator := Nat.cast_pos.2 hden
  have hfactor : (0 : ℚ) < (i.factors grid).1 := Nat.cast_pos.2 (i.factors_fst_pos grid)
  rw [← Nat.cast_le (α := ℚ), Nat.cast_mul, Nat.cast_mul, factors_snd, ← mul_assoc,
    mul_le_mul_iff_left₀ hfactor, div_le_iff₀ hdenq]
  ring_nf

theorem factor_mul_le (grid : Int) (a c : Nat) :
    c * (i.factors grid).2 ≤ a * (i.factors grid).1 ↔
      (c : ℚ) * 10 ^ grid ≤ a / i.denominator := by
  have hdenq : (0 : ℚ) < i.denominator := Nat.cast_pos.2 hden
  have hfactor : (0 : ℚ) < (i.factors grid).1 := Nat.cast_pos.2 (i.factors_fst_pos grid)
  rw [← Nat.cast_le (α := ℚ), Nat.cast_mul, Nat.cast_mul, factors_snd, ← mul_assoc,
    mul_le_mul_iff_left₀ hfactor, le_div_iff₀ hdenq]
  ring_nf

/-- A decimal is accepted if it lies between the ends, and at an end only if they belong to the
interval. -/
theorem contains_iff (hbelow : i.below ≤ i.value) (grid : Int) (c : Nat) :
    i.contains grid c = true ↔
      (((i.value - i.below) / i.denominator : ℚ) ≤ c * 10 ^ grid ∧
        (c : ℚ) * 10 ^ grid ≤ (i.value + i.above) / i.denominator) ∧
      (i.closed = false →
        ((i.value - i.below) / i.denominator : ℚ) < c * 10 ^ grid ∧
          (c : ℚ) * 10 ^ grid < (i.value + i.above) / i.denominator) := by
  have hlower := mul_factor_le hden grid (i.value - i.below) c
  have hupper := factor_mul_le hden grid (i.value + i.above) c
  have hlower' := factor_mul_le hden grid (i.value - i.below) c
  have hupper' := mul_factor_le hden grid (i.value + i.above) c
  rw [Nat.cast_sub hbelow] at hlower hlower'
  rw [Nat.cast_add] at hupper hupper'
  rw [contains_eq]
  cases i.closed with
  | true => simp [hlower, hupper]
  | false =>
    rw [← not_iff_not, not_le, not_le] at hlower' hupper'
    simp only [hlower', hupper', Bool.false_eq_true, if_false, forall_const, decide_eq_true_iff]
    constructor
    · intro h
      exact ⟨⟨h.1.le, h.2.le⟩, h⟩
    · exact And.right

/-- The neighbours of the value on the grid are the floor and the next multiple. -/
theorem floorOn_le (grid : Int) : (i.floorOn grid : ℚ) * 10 ^ grid ≤ i.value / i.denominator := by
  rw [← factor_mul_le hden]
  exact Nat.div_mul_le_self _ _

theorem lt_floorOn_add_one (grid : Int) :
    (i.value / i.denominator : ℚ) < (i.floorOn grid + 1) * 10 ^ grid := by
  have hpos : (0 : ℚ) < (i.factors grid).2 := by
    rw [factors_snd]
    have := i.factors_fst_pos grid
    have := ten_zpow_pos grid
    positivity
  rw [← Nat.cast_add_one, ← not_le, ← factor_mul_le hden, not_le, Nat.add_mul, Nat.one_mul]
  exact Nat.lt_div_mul_add (by exact_mod_cast hpos)

omit hden

/-- One of the neighbours is found if one is accepted, and it is accepted. -/
theorem onGrid?_spec (i : Interval) (tie : Tie) (grid : Int) :
    (i.onGrid? tie grid = none ∧ i.contains grid (i.floorOn grid) = false ∧
      i.contains grid (i.floorOn grid + 1) = false) ∨
    ∃ c, i.onGrid? tie grid = some c ∧ i.contains grid c = true := by
  rw [onGrid?_eq]
  cases hfloor : i.contains grid (i.floorOn grid) with
  | false =>
    cases hnext : i.contains grid (i.floorOn grid + 1) with
    | false => exact .inl ⟨rfl, rfl, rfl⟩
    | true => exact .inr ⟨_, rfl, hnext⟩
  | true =>
    cases hnext : i.contains grid (i.floorOn grid + 1) with
    | false => exact .inr ⟨_, rfl, hfloor⟩
    | true =>
      right
      dsimp only
      split
      · exact ⟨_, rfl, hfloor⟩
      · split
        · exact ⟨_, rfl, hnext⟩
        · cases tie with
          | up => exact ⟨_, rfl, hnext⟩
          | toEven =>
            refine ⟨_, rfl, ?_⟩
            split
            · exact hfloor
            · exact hnext

end Interval

/-! ### The interval of a number -/

theorem intervalOf_denominator_pos (m : Nat) (e : Int) : 0 < (intervalOf m e).denominator :=
  Binary64.scaleDown_pos (by norm_num) (-e)

/-- A number of quarters of the last place over the denominator. -/
theorem quarters_div (n m : Nat) (e : Int) :
    ((n * (Binary64.scaleDown 1 4 (-e)).1 : Nat) / (intervalOf m e).denominator : ℚ) =
      n / 4 * 2 ^ e := by
  have hratio := Binary64.scaleDown_ratio 1 4 (-e)
  have hunit : ((1 : Nat) : ℚ) / (4 : Nat) / 2 ^ (-e) = 1 / 4 * 2 ^ e := by
    rw [zpow_neg, div_inv_eq_mul]
    norm_num
  rw [hunit] at hratio
  rw [Nat.cast_mul, mul_div_assoc]
  change (n : ℚ) * (_ / ((Binary64.scaleDown 1 4 (-e)).2 : ℚ)) = _
  rw [hratio]
  ring

theorem intervalOf_value (m : Nat) (e : Int) :
    ((intervalOf m e).value / (intervalOf m e).denominator : ℚ) = m * 2 ^ e := by
  have h := quarters_div (4 * m) m e
  rw [Nat.cast_mul 4 m] at h
  change ((4 * m * (Binary64.scaleDown 1 4 (-e)).1 : Nat) / _ : ℚ) = _
  rw [h]
  norm_num

theorem intervalOf_above (m : Nat) (e : Int) :
    ((intervalOf m e).above / (intervalOf m e).denominator : ℚ) = 1 / 2 * 2 ^ e := by
  have h := quarters_div 2 m e
  change ((2 * (Binary64.scaleDown 1 4 (-e)).1 : Nat) / _ : ℚ) = _
  rw [h]
  norm_num

theorem intervalOf_below (m : Nat) (e : Int) :
    ((intervalOf m e).below / (intervalOf m e).denominator : ℚ) = roomBelow m e * 2 ^ e := by
  have h := quarters_div (if m = pow2 52 ∧ minExponent < e then 1 else 2) m e
  change (((if m = pow2 52 ∧ minExponent < e then 1 else 2) *
    (Binary64.scaleDown 1 4 (-e)).1 : Nat) / _ : ℚ) = _
  rw [h]
  change _ = (if m = pow2 52 ∧ minExponent < e then 1 / 4 else 1 / 2 : ℚ) * 2 ^ e
  split <;> norm_num

theorem intervalOf_below_le {m : Nat} (hm : 0 < m) (e : Int) :
    (intervalOf m e).below ≤ (intervalOf m e).value := by
  apply Nat.mul_le_mul_right
  split <;> omega

/-- A decimal is accepted exactly if it rounds to the number. -/
theorem contains_intervalOf {m : Nat} (hm : 0 < m) (e grid : Int) (c : Nat) :
    (intervalOf m e).contains grid c = true ↔ Rounds m e (c * 10 ^ grid) := by
  have hlower : (((intervalOf m e).value - (intervalOf m e).below) /
      (intervalOf m e).denominator : ℚ) = (m - roomBelow m e) * 2 ^ e := by
    rw [sub_div, intervalOf_value, intervalOf_below, sub_mul]
  have hupper : (((intervalOf m e).value + (intervalOf m e).above) /
      (intervalOf m e).denominator : ℚ) = (m + 1 / 2) * 2 ^ e := by
    rw [add_div, intervalOf_value, intervalOf_above, add_mul]
  have hclosed : (intervalOf m e).closed = false ↔ m % 2 = 1 := by
    change decide (m % 2 = 0) = false ↔ _
    rw [decide_eq_false_iff_not]
    omega
  rw [Interval.contains_iff (intervalOf_denominator_pos m e) (intervalOf_below_le hm e), hlower,
    hupper, hclosed]
  constructor
  · rintro ⟨⟨hlow, hhigh⟩, hodd⟩
    exact ⟨hlow, hhigh, fun h => (hodd h).1, fun h => (hodd h).2⟩
  · intro h
    exact ⟨⟨h.lower, h.upper⟩, fun hodd => ⟨h.lower_lt hodd, h.lt_upper hodd⟩⟩

/-! ### Seventeen digits -/

/-- What lies strictly between the ends rounds to the number. -/
theorem rounds_of_lt {m : Nat} {e : Int} {x : ℚ} (hlower : (m - roomBelow m e) * 2 ^ e < x)
    (hupper : x < (m + 1 / 2) * 2 ^ e) : Rounds m e x :=
  ⟨hlower.le, hupper.le, fun _ => hlower, fun _ => hupper⟩

/-- On a grid finer than the interval one of the neighbours rounds to the number. -/
theorem exists_onGrid? {m : Nat} (hm : 0 < m) (e grid : Int) (tie : Tie)
    (hfine : (10 : ℚ) ^ grid < (roomBelow m e + 1 / 2) * 2 ^ e) :
    ∃ c, (intervalOf m e).onGrid? tie grid = some c := by
  have hden := intervalOf_denominator_pos m e
  have hfloor := Interval.floorOn_le hden grid
  have hnext := Interval.lt_floorOn_add_one hden grid
  rw [intervalOf_value] at hfloor hnext
  have hroom : 0 < roomBelow m e * 2 ^ e :=
    mul_pos (Binary64.roomBelow_pos m e) (Binary64.two_zpow_pos e)
  have hhalf : (0 : ℚ) < 1 / 2 * 2 ^ e := mul_pos (by norm_num) (Binary64.two_zpow_pos e)
  obtain ⟨-, hnofloor, hnonext⟩ | ⟨c, hc, -⟩ := (intervalOf m e).onGrid?_spec tie grid
  · exfalso
    rw [Bool.eq_false_iff, Ne, contains_intervalOf hm] at hnofloor hnonext
    rw [Nat.cast_add_one] at hnonext
    -- The floor is too far below, so the next multiple is near enough above.
    have hfar : ((intervalOf m e).floorOn grid : ℚ) * 10 ^ grid ≤ (m - roomBelow m e) * 2 ^ e := by
      by_contra hnear
      exact hnofloor (rounds_of_lt (not_le.1 hnear) (by linarith))
    apply hnonext
    apply rounds_of_lt
    · linarith
    · linarith
  · exact ⟨c, hc⟩

/-- A number is at least the power of ten below its magnitude. -/
theorem pow_magnitude_le {i : Interval} (hvalue : 0 < i.value) (hden : 0 < i.denominator) :
    (10 : ℚ) ^ (i.magnitude - 1) ≤ i.value / i.denominator := by
  have hdenq : (0 : ℚ) < i.denominator := Nat.cast_pos.2 hden
  have hvalueq : (0 : ℚ) < i.value := Nat.cast_pos.2 hvalue
  unfold Interval.magnitude
  split
  · next hle =>
    calc (10 : ℚ) ^ ((decimalWidth (i.value / i.denominator) : Int) - 1)
        ≤ ((i.value / i.denominator : Nat) : ℚ) := pow_decimalWidth_le (Nat.div_pos hle hden)
      _ ≤ i.value / i.denominator := Nat.cast_div_le
  · -- Below one the denominator is at most the value times the power.
    have hwidth := lt_pow_decimalWidth ((i.denominator - 1) / i.value)
    set width := decimalWidth ((i.denominator - 1) / i.value)
    have hless : i.denominator - 1 < i.value * 10 ^ width := by
      rw [zpow_natCast] at hwidth
      rw [mul_comm, ← Nat.div_lt_iff_lt_mul hvalue]
      exact_mod_cast hwidth
    have hle : (i.denominator : ℚ) ≤ i.value * 10 ^ width := by
      have : i.denominator ≤ i.value * 10 ^ width := by omega
      exact_mod_cast this
    have hexponent : (1 - (width : Int)) - 1 = -(width : Int) := by ring
    rw [hexponent, zpow_neg, zpow_natCast, le_div_iff₀ hdenq, inv_mul_le_iff₀ (by positivity)]
    linarith

/-- Seventeen digits make a grid that is finer than the interval. -/
theorem pow_grid_lt {m : Nat} (hm : 0 < m) (hmax : m < 2 ^ 53) (e : Int) :
    (10 : ℚ) ^ ((intervalOf m e).magnitude - 17) < (roomBelow m e + 1 / 2) * 2 ^ e := by
  have hden := intervalOf_denominator_pos m e
  have hunit := Binary64.two_zpow_pos e
  have hvalue : 0 < (intervalOf m e).value := by
    have hpos : (0 : ℚ) < m * 2 ^ e := mul_pos (Nat.cast_pos.2 hm) hunit
    rw [← intervalOf_value] at hpos
    have := (div_pos_iff_of_pos_right (Nat.cast_pos.2 hden)).1 hpos
    exact_mod_cast this
  have hle := pow_magnitude_le hvalue hden
  rw [intervalOf_value] at hle
  have hsmall : (m : ℚ) / 10 ^ 16 < roomBelow m e + 1 / 2 := by
    have hmaxq : (m : ℚ) < 2 ^ 53 := by exact_mod_cast hmax
    unfold roomBelow
    split
    · next hpower =>
      rw [hpower.1]
      norm_num
    · rw [div_lt_iff₀ (by norm_num)]
      norm_num at hmaxq ⊢
      linarith
  calc (10 : ℚ) ^ ((intervalOf m e).magnitude - 17)
      = 10 ^ ((intervalOf m e).magnitude - 1) / 10 ^ 16 := by
        rw [eq_div_iff (by norm_num), ← zpow_natCast, ← zpow_add₀ (by norm_num)]
        congr 1
        omega
    _ ≤ m * 2 ^ e / 10 ^ 16 := by gcongr
    _ = m / 10 ^ 16 * 2 ^ e := by ring
    _ < (roomBelow m e + 1 / 2) * 2 ^ e := by gcongr

/-! ### The decimal that is found -/

theorem stripZeros_value (fuel c : Nat) (e : Int) :
    ((stripZeros fuel c e).1 : ℚ) * 10 ^ (stripZeros fuel c e).2 = c * 10 ^ e := by
  induction fuel generalizing c e with
  | zero => rfl
  | succ fuel ih =>
    rw [stripZeros]
    split
    · next h =>
      have hdiv : (c : ℚ) = (c / 10 : Nat) * 10 := by
        have : c = c / 10 * 10 := by omega
        exact_mod_cast this
      rw [ih, zpow_add₀ (by norm_num), hdiv]
      push_cast
      ring
    · rfl

/-- The decimal that is written rounds to the number. -/
theorem shortest_rounds {m : Nat} (hm : 0 < m) (hmax : m < 2 ^ 53) (e : Int) (tie : Tie) :
    Rounds m e ((shortest tie m e).1 * 10 ^ (shortest tie m e).2) := by
  simp only [shortest]
  split
  · next c grid hhit =>
    obtain ⟨grid', -, hgrid⟩ := List.exists_of_findSome?_eq_some hhit
    obtain ⟨c', hc, heq⟩ := Option.map_eq_some_iff.1 hgrid
    obtain ⟨rfl, rfl⟩ := Prod.mk.inj heq
    rw [stripZeros_value]
    obtain ⟨hnone, -⟩ | ⟨c, hc', hcontains⟩ := (intervalOf m e).onGrid?_spec tie grid'
    · rw [hnone] at hc
      cases hc
    · rw [hc] at hc'
      cases hc'
      exact (contains_intervalOf hm e grid' c').1 hcontains
  · next hnone =>
    -- The last grid always has a decimal.
    obtain ⟨c, hc⟩ := exists_onGrid? hm e _ tie (pow_grid_lt hm hmax e)
    rw [List.findSome?_eq_none_iff] at hnone
    have hlast := hnone ((intervalOf m e).magnitude - 17) (by
      simp only [List.mem_map, List.mem_range]
      exact ⟨16, by decide, by norm_num⟩)
    rw [hc] at hlast
    cases hlast

/-! ### Reading it -/

theorem two_pow_lt_ten_pow {n : Int} (hn : 0 < n) : (2 : ℚ) ^ (3 * n) < 10 ^ n := by
  rw [zpow_mul]
  exact zpow_lt_zpow_left₀ hn (by norm_num) (by norm_num)

/-- Half of the least positive number lies above the power of ten below which all is zero. -/
theorem ten_zpow_lt_half_least : (10 : ℚ) ^ (-401 : Int) < 2 ^ (-1075 : Int) := by
  rw [zpow_neg, zpow_neg]
  apply inv_strictAnti₀ (by positivity)
  exact (two_pow_lt_ten_pow (by norm_num)).trans_le' (by gcongr <;> norm_num)

/-- Numbers in the finite range lie between the powers of ten beyond which nothing is computed. -/
theorem rounds_range {m : Nat} {e : Int} {x : ℚ} (hcanonical : Canonical m e) (hm : 0 < m)
    (h : Rounds m e x) : (10 : ℚ) ^ (-401 : Int) < x ∧ x < 10 ^ (400 : Int) := by
  have hone : (1 : ℚ) ≤ m := by exact_mod_cast hm
  have hroom := Binary64.roomBelow_le m e
  have hhigh : (2 : ℚ) ^ (1024 : Int) < 10 ^ (400 : Int) :=
    (two_pow_lt_ten_pow (by norm_num)).trans_le' (by gcongr <;> norm_num)
  have hunit : (2 : ℚ) ^ (-1074 : Int) ≤ 2 ^ e := zpow_le_zpow_right₀ (by norm_num) hcanonical.2.1
  constructor
  · calc (10 : ℚ) ^ (-401 : Int) < 2 ^ (-1075 : Int) := ten_zpow_lt_half_least
      _ = 1 / 2 * 2 ^ (-1074 : Int) := by
        rw [show (-1075 : Int) = -1 + -1074 by norm_num, zpow_add₀ (by norm_num)]
        norm_num
      _ ≤ (m - roomBelow m e) * 2 ^ e :=
        mul_le_mul (by linarith) hunit (Binary64.two_zpow_pos _).le (by linarith)
      _ ≤ x := h.lower
  · have hexponent : 53 + e ≤ 1024 := by
      have : e ≤ 971 := hcanonical.2.2.1
      omega
    calc x < 2 ^ (53 + e) := h.lt_pow hcanonical
      _ ≤ 2 ^ (1024 : Int) := zpow_le_zpow_right₀ (by norm_num) hexponent
      _ < 10 ^ (400 : Int) := hhigh

/-- A decimal that rounds to a number is read as this number. -/
theorem toBinary64_eq_finite {d : Decimal} {m : Nat} {e : Int} (hcanonical : Canonical m e)
    (hm : 0 < m) (h : Rounds m e (d.coefficient * 10 ^ d.exponent)) :
    d.toBinary64 = .finite d.negative m e hcanonical := by
  obtain ⟨s, c, g⟩ := d
  dsimp only at h ⊢
  have hc : 0 < c := by
    have := (mul_pos_iff_of_pos_right (ten_zpow_pos g)).1 (h.pos hm)
    exact_mod_cast this
  obtain ⟨hlower, hupper⟩ := rounds_range hcanonical hm h
  have hten : (1 : ℚ) < 10 := by norm_num
  -- The width of the coefficient places the decimal between two powers of ten.
  have hlarge : ¬400 < (decimalWidth c : Int) + g := by
    intro hmore
    have hwidth : (10 : ℚ) ^ ((decimalWidth c : Int) - 1 + g) ≤ c * 10 ^ g := by
      rw [zpow_add₀ (by norm_num)]
      gcongr
      exact pow_decimalWidth_le hc
    have := (zpow_lt_zpow_iff_right₀ hten).1 (hwidth.trans_lt hupper)
    omega
  have hsmall : ¬(decimalWidth c : Int) + g < -400 := by
    intro hless
    have hwidth : (c : ℚ) * 10 ^ g < 10 ^ ((decimalWidth c : Int) + g) := by
      rw [zpow_add₀ (by norm_num)]
      gcongr
      exact lt_pow_decimalWidth c
    have := (zpow_lt_zpow_iff_right₀ hten).1 (hlower.trans hwidth)
    omega
  simp only [toBinary64, if_neg hc.ne', if_neg hlarge, if_neg hsmall]
  cases g with
  | ofNat k =>
    apply Binary64.ofRatio_eq_finite hcanonical hm Nat.one_pos
    rw [Int.ofNat_eq_natCast, zpow_natCast] at h
    rwa [Nat.cast_mul, cast_pow10, Nat.cast_one, div_one]
  | negSucc k =>
    apply Binary64.ofRatio_eq_finite hcanonical hm (Nat.pow_pos (by norm_num))
    rw [zpow_negSucc, ← div_eq_mul_inv] at h
    rwa [← cast_pow10] at h

end Decimal

end MathKernel
