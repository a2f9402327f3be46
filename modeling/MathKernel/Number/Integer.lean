/-!
# Integer texts in a radix

An optional sign and at least one digit. The value must lie in the range of the fixed-width
integers that hold it.
-/

namespace MathKernel

/-- Powers of two. -/
def pow2 (n : Nat) : Nat :=
  Nat.pow 2 n

/-- Powers of ten. -/
def pow10 (n : Nat) : Nat :=
  Nat.pow 10 n

/-- The least 64-bit signed integer. -/
def int64Min : Int := -9223372036854775808

/-- The greatest 64-bit signed integer. -/
def int64Max : Int := 9223372036854775807

/-- The range of 64-bit signed integers. -/
def InInt64 (n : Int) : Prop :=
  int64Min ≤ n ∧ n ≤ int64Max

instance (n : Int) : Decidable (InInt64 n) :=
  inferInstanceAs (Decidable (_ ∧ _))

/-- The nearest 64-bit signed integer. -/
def clampInt64 (n : Int) : Int :=
  max int64Min (min int64Max n)

/-- The value of a digit in letters of either case, if it is below the radix. -/
def digitValue? (radix : Nat) (c : Char) : Option Nat :=
  let value :=
    if c.isDigit then c.toNat - '0'.toNat
    else if c.isLower then c.toNat - 'a'.toNat + 10
    else if c.isUpper then c.toNat - 'A'.toNat + 10
    else radix
  if value < radix then some value else none

/-- The value of a nonempty list of digits. -/
def readDigits? (radix : Nat) (digits : List Char) : Option Nat :=
  if digits = [] then none
  else digits.foldlM (fun n c => (digitValue? radix c).map (radix * n + ·)) 0

/-- A signed integer that fits 64 bits. -/
def readInt64? (radix : Nat) (text : List Char) : Option Int := do
  let n : Int ← match text with
    | '-' :: digits => (readDigits? radix digits).map fun n => -(n : Int)
    | '+' :: digits => (readDigits? radix digits).map Int.ofNat
    | digits => (readDigits? radix digits).map Int.ofNat
  if InInt64 n then some n else none

/-- An unsigned decimal integer that fits 64 bits; a plus sign may stand before it. -/
def readNat64? (text : List Char) : Option Nat := do
  let n ← match text with
    | '+' :: digits => readDigits? 10 digits
    | digits => readDigits? 10 digits
  if n < pow2 64 then some n else none

end MathKernel
