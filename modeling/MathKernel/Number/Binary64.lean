import MathKernel.Number.Integer

/-!
# Binary floating-point numbers of 64 bits

A value is `nan`, an infinity, or a signed significand times a power of two in
canonical form. Every operation computes the exact rational result and rounds it
once, to the nearest value and a half to the even one, so each is a plain
definition on natural numbers.

## Main definitions

* `Binary64`: the values.
* `Binary64.ofRatio`: the value nearest to a quotient.
* `Binary64.add`, `sub`, `mul`, `div`, `neg`, `trunc`: the arithmetic.
-/

namespace MathKernel

namespace Binary64

/-- Exponent of the smallest subnormal number. -/
def minExponent : Int := -1074

/-- Exponent of the largest finite number's unit in the last place. -/
def maxExponent : Int := 971

/-- The significand has at most 53 bits, and has 53 of them unless the exponent is the least
one. Each magnitude has exactly one such form. -/
def Canonical (significand : Nat) (exponent : Int) : Prop :=
  significand < pow2 53 ∧ minExponent ≤ exponent ∧ exponent ≤ maxExponent ∧
    (pow2 52 ≤ significand ∨ exponent = minExponent)

instance (significand : Nat) (exponent : Int) : Decidable (Canonical significand exponent) :=
  inferInstanceAs (Decidable (_ ∧ _ ∧ _ ∧ _))

end Binary64

/-- A 64-bit binary floating-point number; `finite s m e _` is `m * 2 ^ e`, negated if `s`. -/
inductive Binary64 where
  | nan
  | infinity (negative : Bool)
  | finite (negative : Bool) (significand : Nat) (exponent : Int)
      (canonical : Binary64.Canonical significand exponent)
  deriving DecidableEq

namespace Binary64

/-- Zero of either sign. -/
def zero (negative : Bool) : Binary64 :=
  .finite negative 0 minExponent (by decide)

/-- The integer nearest to `num / den`, a half going to the even neighbour. -/
def roundHalfEven (num den : Nat) : Nat :=
  let quotient := num / den
  let rest := num % den
  if 2 * rest < den then quotient
  else if den < 2 * rest then quotient + 1
  else if quotient % 2 = 0 then quotient else quotient + 1

/-- Numerator and denominator of `num / den / 2 ^ e`. -/
def scaleDown (num den : Nat) : Int → Nat × Nat
  | .ofNat k => (num, den * pow2 k)
  | .negSucc k => (num * pow2 (k + 1), den)

/-- The exponent of the canonical form in which `num / den` is rounded. -/
def exponentFor (num den : Nat) : Int :=
  let guess : Int := (Nat.log2 num : Int) - (Nat.log2 den : Int) - 53
  let scaled := scaleDown num den guess
  max minExponent (if scaled.1 < scaled.2 * pow2 53 then guess else guess + 1)

/-- Build a value from a rounded significand; what exceeds the finite range is an infinity. -/
def pack (negative : Bool) (significand : Nat) (exponent : Int) : Binary64 :=
  let carried := if significand = pow2 53 then (pow2 52, exponent + 1) else (significand, exponent)
  if h : Canonical carried.1 carried.2 then .finite negative carried.1 carried.2 h
  else .infinity negative

/-- The value nearest to `num / den`, with the given sign. -/
def ofRatio (negative : Bool) (num den : Nat) : Binary64 :=
  if num = 0 then zero negative
  else
    let exponent := exponentFor num den
    let scaled := scaleDown num den exponent
    pack negative (roundHalfEven scaled.1 scaled.2) exponent

/-- The value nearest to `significand * 2 ^ exponent`, with the given sign. -/
def ofScaled (negative : Bool) (significand : Nat) : Int → Binary64
  | .ofNat k => ofRatio negative (significand * pow2 k) 1
  | .negSucc k => ofRatio negative significand (pow2 (k + 1))

/-- The value nearest to an integer. -/
def ofInt (n : Int) : Binary64 :=
  ofRatio (decide (n < 0)) n.natAbs 1

/-- Whether the value is not a number. -/
def isNaN : Binary64 → Bool
  | .nan => true
  | _ => false

/-- Whether the value is an infinity. -/
def isInfinite : Binary64 → Bool
  | .infinity _ => true
  | _ => false

/-- Whether the value is a zero of either sign. -/
def isZero : Binary64 → Bool
  | .finite _ 0 _ _ => true
  | _ => false

/-- Change the sign. -/
def neg : Binary64 → Binary64
  | .nan => .nan
  | .infinity s => .infinity (!s)
  | .finite s m e h => .finite (!s) m e h

/-- A significand with its sign, brought from exponent `e` down to exponent `least`. -/
def aligned (negative : Bool) (significand : Nat) (e least : Int) : Int :=
  let magnitude : Int := (significand * pow2 (e - least).toNat : Nat)
  if negative then -magnitude else magnitude

/-- Sum; an exact zero is positive unless both terms are negative. -/
def add : Binary64 → Binary64 → Binary64
  | .nan, _ => .nan
  | _, .nan => .nan
  | .infinity s, .infinity t => if s = t then .infinity s else .nan
  | .infinity s, _ => .infinity s
  | _, .infinity t => .infinity t
  | .finite s m e _, .finite t n f _ =>
    let least := min e f
    let total := aligned s m e least + aligned t n f least
    if total = 0 then zero (s && t)
    else ofScaled (decide (total < 0)) total.natAbs least

/-- Difference. -/
def sub (x y : Binary64) : Binary64 :=
  add x (neg y)

/-- Product. -/
def mul : Binary64 → Binary64 → Binary64
  | .nan, _ => .nan
  | _, .nan => .nan
  | .infinity s, .infinity t => .infinity (s != t)
  | .infinity s, .finite t n _ _ => if n = 0 then .nan else .infinity (s != t)
  | .finite s m _ _, .infinity t => if m = 0 then .nan else .infinity (s != t)
  | .finite s m e _, .finite t n f _ => ofScaled (s != t) (m * n) (e + f)

/-- Quotient; a nonzero number over zero is an infinity. -/
def div : Binary64 → Binary64 → Binary64
  | .nan, _ => .nan
  | _, .nan => .nan
  | .infinity _, .infinity _ => .nan
  | .infinity s, .finite t _ _ _ => .infinity (s != t)
  | .finite s _ _ _, .infinity t => zero (s != t)
  | .finite s m e _, .finite t n f _ =>
    if n = 0 then (if m = 0 then .nan else .infinity (s != t))
    else
      let scaled := scaleDown m n (f - e)
      ofRatio (s != t) scaled.1 scaled.2

/-- The integer part of `significand * 2 ^ exponent`. -/
def integerPart (significand : Nat) : Int → Nat
  | .ofNat k => significand * pow2 k
  | .negSucc k => significand / pow2 (k + 1)

/-- Drop the fractional part, keeping the sign. -/
def trunc : Binary64 → Binary64
  | .nan => .nan
  | .infinity s => .infinity s
  | .finite s m e _ => ofRatio s (integerPart m e) 1

/-- The integer part, with the limits of 64-bit signed integers in place of what lies beyond
them and zero in place of `nan`. -/
def toInt64 : Binary64 → Int
  | .nan => 0
  | .infinity true => int64Min
  | .infinity false => int64Max
  | .finite s m e _ =>
    let magnitude : Int := integerPart m e
    clampInt64 (if s then -magnitude else magnitude)

end Binary64

end MathKernel
