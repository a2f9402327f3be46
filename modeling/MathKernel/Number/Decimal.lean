import MathKernel.Number.Binary64

/-!
# Decimal texts of floating-point numbers

Reading: an optional sign, digits with an optional point, an optional exponent, or one of the
words for infinity and not-a-number. Writing: the fewest digits that read back as the same
value, laid out by a `FloatLayout`.

## Main definitions

* `Decimal`: an exact decimal number, `Decimal.toBinary64` its nearest value.
* `Decimal.shortest`: the shortest decimal within a value's rounding interval.
* `FloatLayout.render`: the text of a value.
-/

namespace MathKernel

/-- The number of decimal digits of `n`; zero has one. -/
def decimalWidth (n : Nat) : Nat :=
  (Nat.toDigits 10 n).length

/-- The natural number that a list of decimal digits spells. -/
def digitsToNat (digits : List Char) : Nat :=
  digits.foldl (fun n c => 10 * n + (c.toNat - '0'.toNat)) 0

/-- The decimal number `coefficient * 10 ^ exponent`, negated if `negative`. -/
structure Decimal where
  negative : Bool
  coefficient : Nat
  exponent : Int
  deriving DecidableEq

namespace Decimal

/-- The nearest floating-point value. Numbers of more than 400 integer digits are beyond the
finite range and those below `10 ^ -400` round to zero, so neither needs its power of ten. -/
def toBinary64 (d : Decimal) : Binary64 :=
  let magnitude : Int := (decimalWidth d.coefficient : Int) + d.exponent
  if d.coefficient = 0 then .zero d.negative
  else if 400 < magnitude then .infinity d.negative
  else if magnitude < -400 then .zero d.negative
  else match d.exponent with
    | .ofNat k => .ofRatio d.negative (d.coefficient * pow10 k) 1
    | .negSucc k => .ofRatio d.negative d.coefficient (pow10 (k + 1))

/-- Split off an optional sign; the flag says whether it was a minus. -/
def splitSign : List Char → Bool × List Char
  | '-' :: rest => (true, rest)
  | '+' :: rest => (false, rest)
  | text => (false, text)

/-- The exponent part of a number: nothing, or a mark, an optional sign and digits. -/
def readExponent? : List Char → Option Int
  | [] => some 0
  | mark :: rest =>
    let (negative, digits) := splitSign rest
    if (mark = 'e' ∨ mark = 'E') ∧ digits ≠ [] ∧ digits.all Char.isDigit then
      some (if negative then -(digitsToNat digits : Int) else digitsToNat digits)
    else none

/-- Split the fraction digits from what follows; without a point there are none. -/
def splitFraction : List Char → List Char × List Char
  | '.' :: rest => (rest.takeWhile Char.isDigit, rest.dropWhile Char.isDigit)
  | rest => ([], rest)

/-- An unsigned number: digits with an optional point among or around them, at least one digit,
and an optional exponent. -/
def readUnsigned? (negative : Bool) (text : List Char) : Option Decimal := do
  let whole := text.takeWhile Char.isDigit
  let (fraction, rest) := splitFraction (text.dropWhile Char.isDigit)
  if whole = [] ∧ fraction = [] then none
  else
    let exponent ← readExponent? rest
    some ⟨negative, digitsToNat (whole ++ fraction), exponent - fraction.length⟩

end Decimal

namespace Binary64

/-- The value a text denotes: a decimal number, `inf`, `infinity` or `nan` in letters of either
case, each with an optional sign. -/
def ofText? (text : List Char) : Option Binary64 :=
  let (negative, rest) := Decimal.splitSign text
  let word := String.ofList (rest.map Char.toLower)
  if word = "inf" ∨ word = "infinity" then some (.infinity negative)
  else if word = "nan" then some .nan
  else (Decimal.readUnsigned? negative rest).map Decimal.toBinary64

end Binary64

/-- Which of two equally near decimals is written. -/
inductive Tie where
  | toEven
  | up
  deriving DecidableEq, Repr

namespace Decimal

/-- A positive value and the distances to the ends of its rounding interval, all over one
denominator. The ends round to the value themselves when `closed`. -/
structure Interval where
  value : Nat
  below : Nat
  above : Nat
  denominator : Nat
  closed : Bool

/-- The interval of reals that round to `significand * 2 ^ exponent`. Below a power of two the
next value is half as far away. -/
def intervalOf (significand : Nat) (exponent : Int) : Interval :=
  let unit := Binary64.scaleDown 1 4 (-exponent)
  let below := if significand = pow2 52 ∧ Binary64.minExponent < exponent then 1 else 2
  { value := 4 * significand * unit.1
    below := below * unit.1
    above := 2 * unit.1
    denominator := unit.2
    closed := significand % 2 = 0 }

/-- The least `k` for which the value is below `10 ^ k`. -/
def Interval.magnitude (i : Interval) : Int :=
  if i.denominator ≤ i.value then decimalWidth (i.value / i.denominator)
  else 1 - (decimalWidth ((i.denominator - 1) / i.value) : Int)

/-- Whether `candidate * 10 ^ grid` rounds to the value. -/
def Interval.contains (i : Interval) (grid : Int) (candidate : Nat) : Bool :=
  let (scale, unit) := match grid with
    | .ofNat k => (1, i.denominator * pow10 k)
    | .negSucc k => (pow10 (k + 1), i.denominator)
  let point := candidate * unit
  if i.closed then (i.value - i.below) * scale ≤ point ∧ point ≤ (i.value + i.above) * scale
  else (i.value - i.below) * scale < point ∧ point < (i.value + i.above) * scale

/-- The multiple of `10 ^ grid` that is written for the value, if one rounds to it: of the two
neighbours on that grid the nearer one. -/
def Interval.onGrid? (i : Interval) (tie : Tie) (grid : Int) : Option Nat :=
  let (scale, unit) := match grid with
    | .ofNat k => (1, i.denominator * pow10 k)
    | .negSucc k => (pow10 (k + 1), i.denominator)
  let floor := i.value * scale / unit
  let rest := i.value * scale % unit
  match i.contains grid floor, i.contains grid (floor + 1) with
  | false, false => none
  | true, false => some floor
  | false, true => some (floor + 1)
  | true, true =>
    if 2 * rest < unit then some floor
    else if unit < 2 * rest then some (floor + 1)
    else match tie with
      | .up => some (floor + 1)
      | .toEven => some (if floor % 2 = 0 then floor else floor + 1)

/-- Move trailing zeros of the coefficient into the exponent. -/
def stripZeros : Nat → Nat → Int → Nat × Int
  | 0, coefficient, exponent => (coefficient, exponent)
  | fuel + 1, coefficient, exponent =>
    if coefficient % 10 = 0 ∧ coefficient ≠ 0 then stripZeros fuel (coefficient / 10) (exponent + 1)
    else (coefficient, exponent)

/-- Seventeen digits always suffice to tell two values apart. -/
def maxDigits : Nat := 17

/-- The shortest decimal that reads back as `significand * 2 ^ exponent`, as coefficient and
exponent; among the shortest the nearest. -/
def shortest (tie : Tie) (significand : Nat) (exponent : Int) : Nat × Int :=
  let interval := intervalOf significand exponent
  let magnitude := interval.magnitude
  let grids := (List.range maxDigits).map fun n => magnitude - (n + 1 : Nat)
  let hit := grids.findSome? fun grid => (interval.onGrid? tie grid).map (·, grid)
  match hit with
  | some (coefficient, grid) => stripZeros (maxDigits + 1) coefficient grid
  | none => (0, 0)

end Decimal

/-- How a floating-point value is written: which decimal exponents are written positionally,
whether a positive exponent has a sign, and which of two equally near decimals is taken. -/
structure FloatLayout where
  /-- Least exponent of the leading digit that is written positionally. -/
  leastPositional : Int
  /-- Least exponent of the leading digit beyond those written positionally. -/
  endPositional : Int
  signedExponent : Bool
  tie : Tie

namespace FloatLayout

/-- The text `0.ddd * 10 ^ point` in positional form, with a digit on each side of the point. -/
def positional (digits : List Char) (point : Int) : List Char :=
  if point ≤ 0 then "0.".toList ++ List.replicate (-point).toNat '0' ++ digits
  else
    let width := point.toNat
    if digits.length ≤ width then
      digits ++ List.replicate (width - digits.length) '0' ++ ".0".toList
    else digits.take width ++ '.' :: digits.drop width

/-- The text of digits with the exponent of the leading one. -/
def scientific (layout : FloatLayout) (digits : List Char) (exponent : Int) : List Char :=
  let fraction := digits.drop 1
  let plus := if layout.signedExponent ∧ 0 ≤ exponent then ['+'] else []
  digits.take 1 ++ (if fraction = [] then [] else '.' :: fraction) ++ 'e' :: plus ++
    (toString exponent).toList

/-- The text of a positive finite value. -/
def renderPositive (layout : FloatLayout) (significand : Nat) (exponent : Int) : List Char :=
  let (coefficient, power) := Decimal.shortest layout.tie significand exponent
  let digits := Nat.toDigits 10 coefficient
  let point := (digits.length : Int) + power
  if layout.leastPositional ≤ point - 1 ∧ point - 1 < layout.endPositional then
    positional digits point
  else layout.scientific digits (point - 1)

/-- The text of a value. -/
def render (layout : FloatLayout) : Binary64 → String
  | .nan => "NaN"
  | .infinity true => "-inf"
  | .infinity false => "inf"
  | .finite negative significand exponent _ =>
    let sign := if negative then ['-'] else []
    String.ofList <| sign ++
      if significand = 0 then "0.0".toList else layout.renderPositive significand exponent

end FloatLayout

end MathKernel
