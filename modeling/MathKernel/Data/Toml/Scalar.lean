import MathKernel.Number.Decimal
import MathKernel.Data.Toml.Basic

/-!
# TOML numbers and dates

An underscore may stand between two digits. Integers have 64 bits, and only `0` itself starts
with a zero; other bases have no sign. A number above the floating-point range is refused, one
below it is minus infinity. Dates are checked against the calendar.
-/

namespace MathKernel

namespace Toml

/-- Digits in which underscores stand only between digits, without the underscores. -/
def plainDigits? (isDigit : Char → Bool) : List Char → Option (List Char)
  | [] => none
  | [c] => if isDigit c then some [c] else none
  | c :: '_' :: rest => if isDigit c then (plainDigits? isDigit rest).map (c :: ·) else none
  | c :: rest => if isDigit c then (plainDigits? isDigit rest).map (c :: ·) else none

/-- A sign and the text after it. -/
def splitSign : List Char → List Char × List Char
  | '-' :: rest => (['-'], rest)
  | '+' :: rest => ([], rest)
  | rest => ([], rest)

/-- Whether digits start with a superfluous zero. -/
def hasLeadingZero : List Char → Bool
  | '0' :: _ :: _ => true
  | _ => false

/-- Hexadecimal digits. -/
def isHexDigit (c : Char) : Bool :=
  c.isDigit || ('a' ≤ c && c ≤ 'f') || ('A' ≤ c && c ≤ 'F')

/-- An integer of 64 bits. -/
def readInteger? (text : List Char) : Option Int :=
  match text with
  | '0' :: 'x' :: rest => (plainDigits? isHexDigit rest).bind (readInt64? 16)
  | '0' :: 'o' :: rest =>
    (plainDigits? (fun c => '0' ≤ c && c ≤ '7') rest).bind (readInt64? 8)
  | '0' :: 'b' :: rest =>
    (plainDigits? (fun c => c == '0' || c == '1') rest).bind (readInt64? 2)
  | _ => do
    let (sign, rest) := splitSign text
    let digits ← plainDigits? Char.isDigit rest
    if hasLeadingZero digits then none else readInt64? 10 (sign ++ digits)

/-- The parts of a text before and after the first character with a property. -/
def splitAt (p : Char → Bool) (text : List Char) : List Char × Option (List Char) :=
  (text.takeWhile (!p ·), (text.dropWhile (!p ·)).tail?)

/-- The text of an exponent without underscores; nothing for none. -/
def readExponent? : Option (List Char) → Option (List Char)
  | none => some []
  | some text => do
    let (sign, rest) := splitSign text
    let digits ← plainDigits? Char.isDigit rest
    return 'e' :: sign ++ digits

/-- The text of a fraction without underscores; nothing for none. -/
def readFraction? : Option (List Char) → Option (List Char)
  | none => some []
  | some text => (plainDigits? Char.isDigit text).map ('.' :: ·)

/-- A floating-point number that is not above the range. -/
def readFloat? (text : List Char) : Option Binary64 := do
  let (sign, rest) := splitSign text
  if rest = "inf".toList then some (.infinity (sign ≠ []))
  else if rest = "nan".toList then some .nan
  else
    let (mantissa, exponent) := splitAt (fun c => c == 'e' || c == 'E') rest
    let (whole, fraction) := splitAt (· == '.') mantissa
    if exponent = none ∧ fraction = none then none
    else
      let whole ← plainDigits? Char.isDigit whole
      let fraction ← readFraction? fraction
      let exponent ← readExponent? exponent
      let x ← Binary64.ofText? (sign ++ whole ++ fraction ++ exponent)
      if hasLeadingZero whole || x == .infinity false then none else some x

/-! ### Dates and times -/

/-- The number of two digits. -/
def twoDigits? (a b : Char) : Option Nat :=
  if a.isDigit && b.isDigit then readDigits? 10 [a, b] else none

/-- The days of a month. -/
def daysIn (year month : Nat) : Nat :=
  if month = 2 then
    if year % 4 = 0 ∧ (year % 100 ≠ 0 ∨ year % 400 = 0) then 29 else 28
  else if month = 4 ∨ month = 6 ∨ month = 9 ∨ month = 11 then 30
  else 31

/-- Read a date; the result is what follows it. -/
def afterDate? : List Char → Option (List Char)
  | a :: b :: c :: d :: '-' :: e :: f :: '-' :: g :: h :: rest => do
    let century ← twoDigits? a b
    let year := 100 * century + (← twoDigits? c d)
    let month ← twoDigits? e f
    let day ← twoDigits? g h
    if 1 ≤ month ∧ month ≤ 12 ∧ 1 ≤ day ∧ day ≤ daysIn year month then some rest else none
  | _ => none

/-- Skip the fraction of a second. -/
def afterFraction? : List Char → Option (List Char)
  | '.' :: rest =>
    match rest.dropWhile Char.isDigit with
    | tail => if tail.length < rest.length then some tail else none
  | rest => some rest

/-- Read a time of day; the result is what follows it. -/
def afterTime? : List Char → Option (List Char)
  | a :: b :: ':' :: c :: d :: ':' :: e :: f :: rest => do
    let hour ← twoDigits? a b
    let minute ← twoDigits? c d
    let second ← twoDigits? e f
    if hour ≤ 23 ∧ minute ≤ 59 ∧ second ≤ 60 then afterFraction? rest else none
  | _ => none

/-- Whether a text is empty or an offset from universal time. -/
def isOffset : List Char → Bool
  | [] => true
  | ['Z'] | ['z'] => true
  | [sign, a, b, ':', c, d] =>
    (sign == '+' || sign == '-') &&
      match twoDigits? a b, twoDigits? c d with
      | some hour, some minute => hour ≤ 23 && minute ≤ 59
      | _, _ => false
  | _ => false

/-- Whether a text is a date, a time, or both. -/
def isDatetime (text : List Char) : Bool :=
  match afterDate? text with
  | some [] => true
  | some (delimiter :: rest) =>
    (delimiter == 'T' || delimiter == 't' || delimiter == ' ') &&
      ((afterTime? rest).map isOffset).getD false
  | none => afterTime? text == some []

/-! ### Scalars -/

/-- Characters of numbers, dates and words. -/
def isScalarChar (c : Char) : Bool :=
  c.isAlphanum || c == '_' || c == '+' || c == '-' || c == '.' || c == ':'

/-- The scalar at the start of a text, and the text after it. A blank may stand between a date
and a time. -/
def splitScalar (text : List Char) : List Char × List Char :=
  let word := text.takeWhile isScalarChar
  let rest := text.dropWhile isScalarChar
  match afterDate? word, rest with
  | some [], ' ' :: tail =>
    let time := tail.takeWhile isScalarChar
    if isDatetime (word ++ ' ' :: time) then (word ++ ' ' :: time, tail.dropWhile isScalarChar)
    else (word, rest)
  | _, _ => (word, rest)

/-- The value of a number, date or truth value. -/
def scalar? (text : List Char) : Option Toml :=
  if text = "true".toList then some (boolean true)
  else if text = "false".toList then some (boolean false)
  else
    match readInteger? text, readFloat? text with
    | some n, _ => some (integer n)
    | none, some x => some (float x)
    | none, none =>
      if isDatetime text then some (datetime (String.ofList text)) else none

end Toml

end MathKernel
