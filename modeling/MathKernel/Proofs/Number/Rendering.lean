import MathKernel.Proofs.Number.Shortest

/-!
# Texts of numbers

Every finite number is written as digits with a fraction, an exponent or both, and this text is
read as the number.

## Main definitions

* `Numeral` — digits with a fraction, an exponent or both, `Numeral.decimal` what they spell

## Main results

* `Numeral.readUnsigned?_text` — a numeral is read as the decimal that it spells
* `FloatLayout.render_finite` — a finite number is written as a numeral that denotes it
-/

namespace MathKernel

/-- Digits without a superfluous leading zero, a fraction and an exponent, of which at least one
is there. -/
structure Numeral where
  whole : List Char
  fraction : List Char
  scale : Option Int
  /-- A plus stands before the exponent. -/
  plus : Bool
  whole_ne_nil : whole ≠ []
  whole_digits : ∀ c ∈ whole, c.isDigit = true
  whole_head : whole = ['0'] ∨ whole.head? ≠ some '0'
  fraction_digits : ∀ c ∈ fraction, c.isDigit = true
  plus_nonneg : plus = true → 0 ≤ scale.getD 0
  marked : fraction ≠ [] ∨ scale.isSome

namespace Numeral

/-- The text of the exponent. -/
def scaleText (n : Numeral) : List Char :=
  match n.scale with
  | none => []
  | some x => 'e' :: (if n.plus then ['+'] else []) ++ (toString x).toList

/-- The text after the whole digits. -/
def tail (n : Numeral) : List Char :=
  (if n.fraction = [] then [] else '.' :: n.fraction) ++ n.scaleText

/-- The text of a numeral. -/
def text (n : Numeral) : List Char :=
  n.whole ++ n.tail

/-- The decimal that a numeral spells. -/
def decimal (n : Numeral) (negative : Bool) : Decimal :=
  ⟨negative, digitsToNat (n.whole ++ n.fraction), n.scale.getD 0 - n.fraction.length⟩

theorem readExponent?_scaleText (n : Numeral) :
    Decimal.readExponent? n.scaleText = some (n.scale.getD 0) := by
  unfold scaleText
  split
  · next h =>
    rw [h]
    rfl
  · next x h =>
    rw [h]
    apply Decimal.readExponent?_toString
    have hplus := n.plus_nonneg
    rw [h] at hplus
    cases hsign : n.plus with
    | false => exact .inl rfl
    | true => exact .inr ⟨rfl, hplus hsign⟩

theorem head?_scaleText (n : Numeral) : ∀ c ∈ n.scaleText.head?, c.isDigit = false := by
  unfold scaleText
  split <;> simp

theorem head?_tail (n : Numeral) : ∀ c ∈ n.tail.head?, c.isDigit = false := by
  unfold tail
  split
  · exact n.head?_scaleText
  · simp

theorem takeWhile_text (n : Numeral) : n.text.takeWhile Char.isDigit = n.whole :=
  takeWhile_append_eq n.whole_digits n.head?_tail

theorem dropWhile_text (n : Numeral) : n.text.dropWhile Char.isDigit = n.tail :=
  dropWhile_append_eq n.whole_digits n.head?_tail

theorem splitFraction_tail (n : Numeral) :
    Decimal.splitFraction n.tail = (n.fraction, n.scaleText) := by
  unfold tail
  split
  · next h =>
    rw [h, List.nil_append]
    unfold scaleText
    split <;> rfl
  · exact Decimal.splitFraction_point n.fraction_digits n.head?_scaleText

theorem exists_text_eq_cons (n : Numeral) :
    ∃ c more, n.text = c :: more ∧ c.isDigit = true := by
  obtain ⟨c, rest, hwhole⟩ := List.exists_cons_of_ne_nil n.whole_ne_nil
  have hc := n.whole_digits c (hwhole ▸ List.mem_cons_self)
  exact ⟨c, rest ++ n.tail, by rw [text, hwhole, List.cons_append], hc⟩

/-- The characters of which a numeral consists. -/
theorem mem_text {n : Numeral} {c : Char} (h : c ∈ n.text) :
    c.isDigit = true ∨ c ∈ ['.', 'e', '+', '-'] := by
  rcases List.mem_append.1 h with hwhole | htail
  · exact .inl (n.whole_digits c hwhole)
  · rcases List.mem_append.1 htail with hfraction | hscale
    · split at hfraction
      · cases hfraction
      · rcases List.mem_cons.1 hfraction with rfl | hdigit
        · exact .inr (by simp)
        · exact .inl (n.fraction_digits c hdigit)
    · unfold scaleText at hscale
      split at hscale
      · cases hscale
      · next x hx =>
        rcases List.mem_append.1 hscale with hmark | hexponent
        · right
          split at hmark
          · rcases List.mem_cons.1 hmark with rfl | hplus
            · simp
            · rw [List.mem_singleton.1 hplus]
              simp
          · rw [List.mem_singleton.1 hmark]
            simp
        · exact (mem_toString hexponent).imp_right fun h => by simp [h]

/-- A numeral is read as the decimal that it spells. -/
theorem readUnsigned?_text (n : Numeral) (negative : Bool) :
    Decimal.readUnsigned? negative n.text = some (n.decimal negative) := by
  rw [Decimal.readUnsigned?, takeWhile_text, dropWhile_text, splitFraction_tail]
  simp [n.whole_ne_nil, readExponent?_scaleText, decimal]

end Numeral

/-! ### Layouts -/

theorem toDigits_ne_zero_head {c : Nat} (hc : 0 < c) : (Nat.toDigits 10 c).head? ≠ some '0' := by
  intro hhead
  cases hdigits : Nat.toDigits 10 c with
  | nil => exact Nat.toDigits_ne_nil hdigits
  | cons first rest =>
    rw [hdigits, List.head?_cons, Option.some.injEq] at hhead
    subst hhead
    cases rest with
    | nil =>
      have hvalue := digitsToNat_toDigits c
      rw [hdigits] at hvalue
      exact hc.ne hvalue
    | cons second rest => exact toDigits_head hdigits

theorem isDigit_of_mem_zeros {k : Nat} {x : Char} (h : x ∈ List.replicate k '0') :
    x.isDigit = true := by
  rw [List.eq_of_mem_replicate h]
  rfl

namespace FloatLayout

/-- A numeral spells `c * 10 ^ p`. -/
def Spells (n : Numeral) (c : Nat) (p : Int) : Prop :=
  ((n.decimal false).coefficient : ℚ) * 10 ^ (n.decimal false).exponent = c * 10 ^ p

section

variable {digits : List Char} (hdigits : ∀ x ∈ digits, x.isDigit = true) (hne : digits ≠ [])
  (hhead : digits.head? ≠ some '0')
include hdigits hne

/-- All digits stand after the point. -/
theorem spells_fraction (zeros : Nat) :
    ∃ n : Numeral, "0.".toList ++ List.replicate zeros '0' ++ digits = n.text ∧
      Spells n (digitsToNat digits) (-(zeros + digits.length)) := by
  refine ⟨{ whole := ['0'], fraction := List.replicate zeros '0' ++ digits, scale := none,
            plus := false, whole_ne_nil := by simp, whole_digits := by simp,
            whole_head := .inl rfl, fraction_digits := ?_, plus_nonneg := by simp,
            marked := .inl (by simp [hne]) }, ?_, ?_⟩
  · intro x hx
    exact (List.mem_append.1 hx).elim isDigit_of_mem_zeros (hdigits x)
  · simp [Numeral.text, Numeral.tail, Numeral.scaleText, hne]
  · have hcoefficient : digitsToNat ('0' :: (List.replicate zeros '0' ++ digits)) =
        digitsToNat digits := by
      rw [← List.cons_append, ← List.replicate_succ, digitsToNat_append, digitsToNat_zeros,
        Nat.mul_zero, Nat.zero_add]
    simp [Spells, Numeral.decimal, hcoefficient]

include hhead

/-- All digits stand before the point. -/
theorem spells_whole (zeros : Nat) :
    ∃ n : Numeral, digits ++ List.replicate zeros '0' ++ ".0".toList = n.text ∧
      Spells n (digitsToNat digits) zeros := by
  refine ⟨{ whole := digits ++ List.replicate zeros '0', fraction := ['0'], scale := none,
            plus := false, whole_ne_nil := by simp [hne], whole_digits := ?_,
            whole_head := .inr ?_, fraction_digits := by simp, plus_nonneg := by simp,
            marked := .inl (by simp) }, ?_, ?_⟩
  · intro x hx
    exact (List.mem_append.1 hx).elim (hdigits x) isDigit_of_mem_zeros
  · rwa [List.head?_append_of_ne_nil _ hne]
  · simp [Numeral.text, Numeral.tail, Numeral.scaleText]
  · have hcoefficient : digitsToNat (digits ++ List.replicate zeros '0' ++ ['0']) =
        10 ^ (zeros + 1) * digitsToNat digits := by
      rw [List.append_assoc, ← List.replicate_succ', digitsToNat_append, digitsToNat_zeros,
        List.length_replicate, Nat.add_zero]
    simp only [Spells, Numeral.decimal, hcoefficient]
    simp only [Option.getD_none, List.length_singleton, zpow_natCast]
    push_cast
    norm_num
    ring

/-- The point stands among the digits. -/
theorem spells_point (width : Nat) (hpos : 0 < width) (hwidth : width < digits.length) :
    ∃ n : Numeral, digits.take width ++ '.' :: digits.drop width = n.text ∧
      Spells n (digitsToNat digits) (-(digits.length - width : Nat)) := by
  have hdrop : digits.drop width ≠ [] := by
    rw [Ne, List.drop_eq_nil_iff]
    omega
  refine ⟨{ whole := digits.take width, fraction := digits.drop width, scale := none,
            plus := false, whole_ne_nil := by simp [hne, hpos.ne'],
            whole_digits := fun x hx => hdigits x (List.mem_of_mem_take hx),
            whole_head := .inr ?_,
            fraction_digits := fun x hx => hdigits x (List.mem_of_mem_drop hx),
            plus_nonneg := by simp, marked := .inl hdrop }, ?_, ?_⟩
  · rwa [List.head?_take, if_neg hpos.ne']
  · simp [Numeral.text, Numeral.tail, Numeral.scaleText, hdrop]
  · simp [Spells, Numeral.decimal]

/-- One digit stands before the point, and an exponent follows. -/
theorem spells_scientific (layout : FloatLayout) (exponent : Int) :
    ∃ n : Numeral, layout.scientific digits exponent = n.text ∧
      Spells n (digitsToNat digits) (exponent - (digits.length - 1 : Nat)) := by
  refine ⟨{ whole := digits.take 1, fraction := digits.drop 1, scale := some exponent,
            plus := decide (layout.signedExponent ∧ 0 ≤ exponent),
            whole_ne_nil := by simp [hne],
            whole_digits := fun x hx => hdigits x (List.mem_of_mem_take hx),
            whole_head := .inr ?_,
            fraction_digits := fun x hx => hdigits x (List.mem_of_mem_drop hx),
            plus_nonneg := fun h => (of_decide_eq_true h).2, marked := .inr rfl }, ?_, ?_⟩
  · rwa [List.head?_take, if_neg one_ne_zero]
  · simp [scientific, Numeral.text, Numeral.tail, Numeral.scaleText]
  · simp only [Spells, Numeral.decimal, List.take_append_drop, List.length_drop, Option.getD_some]

end

/-- A positive number is written as a numeral that spells its decimal. -/
theorem renderPositive_spells (layout : FloatLayout) {m : Nat} {e : Int}
    (hc : 0 < (Decimal.shortest layout.tie m e).1) :
    ∃ n : Numeral, layout.renderPositive m e = n.text ∧
      Spells n (Decimal.shortest layout.tie m e).1 (Decimal.shortest layout.tie m e).2 := by
  unfold renderPositive
  generalize Decimal.shortest layout.tie m e = decimal at hc ⊢
  obtain ⟨c, p⟩ := decimal
  dsimp only at hc ⊢
  have hdigits : ∀ x ∈ Nat.toDigits 10 c, x.isDigit = true := fun x => isDigit_of_mem_toDigits
  have hhead := toDigits_ne_zero_head hc
  have hvalue := digitsToNat_toDigits c
  have hne : Nat.toDigits 10 c ≠ [] := Nat.toDigits_ne_nil
  have hlength := List.length_pos_of_ne_nil hne
  generalize Nat.toDigits 10 c = digits at hdigits hhead hvalue hne hlength ⊢
  subst hvalue
  -- The point stands before, after or among the digits, or the number is scientific.
  split
  · unfold positional
    split
    · next hpoint =>
      have h := spells_fraction hdigits hne (-((digits.length : Int) + p)).toNat
      rwa [show -(((-((digits.length : Int) + p)).toNat : Int) + digits.length) = p by omega] at h
    · next hpoint =>
      dsimp only
      split
      · next hwidth =>
        have h := spells_whole hdigits hne hhead (((digits.length : Int) + p).toNat - digits.length)
        rwa [show ((((digits.length : Int) + p).toNat - digits.length : Nat) : Int) = p by omega]
          at h
      · next hwidth =>
        have h := spells_point hdigits hne hhead ((digits.length : Int) + p).toNat (by omega)
          (by omega)
        rwa [show -((digits.length - ((digits.length : Int) + p).toNat : Nat) : Int) = p by omega]
          at h
  · have h := spells_scientific hdigits hne hhead layout ((digits.length : Int) + p - 1)
    rwa [show (digits.length : Int) + p - 1 - (digits.length - 1 : Nat) = p by omega] at h

/-- A finite number is written as a numeral that denotes it. -/
theorem render_finite (layout : FloatLayout) (negative : Bool) {m : Nat} {e : Int}
    (h : Binary64.Canonical m e) :
    ∃ n : Numeral,
      (layout.render (.finite negative m e h)).toList =
        (if negative then ['-'] else []) ++ n.text ∧
      (n.decimal negative).toBinary64 = .finite negative m e h := by
  rw [render, String.toList_ofList]
  by_cases hm : m = 0
  · -- Zero is written in its own form.
    subst hm
    have hmin : e = Binary64.minExponent := h.2.2.2.resolve_left (by decide)
    subst hmin
    exact ⟨{ whole := ['0'], fraction := ['0'], scale := none, plus := false,
             whole_ne_nil := by simp, whole_digits := by simp, whole_head := .inl rfl,
             fraction_digits := by simp, plus_nonneg := by simp, marked := .inl (by simp) },
      rfl, rfl⟩
  · have hpos : 0 < m := Nat.pos_of_ne_zero hm
    have hrounds := Decimal.shortest_rounds hpos h.1 e layout.tie
    have hc : 0 < (Decimal.shortest layout.tie m e).1 := by
      have := (mul_pos_iff_of_pos_right (Decimal.ten_zpow_pos _)).1 (hrounds.pos hpos)
      exact_mod_cast this
    obtain ⟨n, htext, hspells⟩ := layout.renderPositive_spells hc
    refine ⟨n, by rw [if_neg hm, htext], ?_⟩
    apply Decimal.toBinary64_eq_finite h hpos
    rw [← hspells] at hrounds
    exact hrounds

end FloatLayout

end MathKernel
