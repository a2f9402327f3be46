import Mathlib.Algebra.Order.Ring.Rat
import Mathlib.Data.Int.Bitwise
import Mathlib.Data.Rat.Lemmas
import MathKernel.Syntax.Literal
import MathKernel.Syntax.Operator
import MathKernel.Syntax.ScalarType

/-!
# Scalars and the rules of their operators

A scalar is an integer, a rational number or a truth value. Operators are read by one of two sets
of rules. By the implicit rules an operand is converted to the type that its place asks for,
comparisons give the integers one and zero, and the quotient of integers is truncated. By the
explicit rules nothing is converted: operands must have the type that is asked for, comparisons
give truth values, and every quotient is exact.

## Main definitions

* `Scalar`, `Scalar.convert` — values and their conversion between types
* `Rules`, `Rules.implicit`, `Rules.explicit` — the two sets of rules
* `Rules.binary`, `Rules.unary` — operators by given rules
* `Literal.scalar?` — the value of a literal

## Main results

* `Scalar.truncate_div` — truncating an exact quotient gives the truncated quotient
-/

namespace MathKernel

/-- The value of an expression. -/
inductive Scalar where
  | int (n : Int)
  | float (q : Rat)
  | bool (b : Bool)
  | void
  deriving DecidableEq

namespace Scalar

/-- The type of a value. -/
def type : Scalar → ScalarType
  | int _ => .int
  | float _ => .float
  | bool _ => .bool
  | void => .void

/-- The nearest integer toward zero. -/
def truncate (q : Rat) : Int :=
  q.num.tdiv q.den

/-- One for true and zero for false. -/
def bit (b : Bool) : Int :=
  if b then 1 else 0

/-- The value in another type. -/
def convert : ScalarType → Scalar → Scalar
  | .int, float q => int (truncate q)
  | .int, bool b => int (bit b)
  | .float, int n => float n
  | .float, bool b => float (bit b)
  | .bool, int n => bool (n != 0)
  | .bool, float q => bool (q != 0)
  | .void, _ => void
  | _, v => v

/-- The value one of a type. -/
def one : ScalarType → Scalar
  | .int => int 1
  | .float => float 1
  | .bool => bool true
  | .void => void

/-- The value zero of a type. -/
def zero : ScalarType → Scalar
  | .int => int 0
  | .float => float 0
  | .bool => bool false
  | .void => void

theorem type_zero (t : ScalarType) : (zero t).type = t := by
  cases t <;> rfl

/-- Truncating an exact quotient gives the truncated quotient. -/
theorem truncate_div (a : Int) {b : Int} (hb : b ≠ 0) : truncate ((a : Rat) / b) = a.tdiv b := by
  obtain ⟨c, ha, hb'⟩ := Rat.exists_eq_mul_div_num_and_eq_mul_div_den a hb
  have hc : c ≠ 0 := by
    rintro rfl
    exact hb (by simpa using hb')
  have hscale : (c * ((a : Rat) / b).num).tdiv (c * ((a : Rat) / b).den) =
      ((a : Rat) / b).num.tdiv ((a : Rat) / b).den := by
    rcases lt_or_gt_of_ne hc with hneg | hpos
    · rw [← Int.neg_tdiv_neg, ← neg_mul, ← neg_mul]
      exact Int.mul_tdiv_mul_of_pos _ _ (by omega)
    · exact Int.mul_tdiv_mul_of_pos _ _ hpos
  rw [← ha, ← hb'] at hscale
  exact hscale.symm

@[simp] theorem truncate_intCast (n : Int) : truncate n = n := by
  simp [truncate]

end Scalar

/-! ### Operators -/

/-- The outcome of a comparison. -/
def BinaryOp.compare? {α : Type} [LinearOrder α] (op : BinaryOp) (a b : α) : Option Bool :=
  match op with
  | .lt => some (a < b)
  | .le => some (a ≤ b)
  | .gt => some (b < a)
  | .ge => some (b ≤ a)
  | .eq => some (a = b)
  | .ne => some (a ≠ b)
  | _ => none

/-- How operators treat the types of their operands. -/
structure Rules where
  /-- What a value becomes where a type is asked for. -/
  adapt : ScalarType → Scalar → Scalar
  /-- What a value becomes as the operand of a sign or where no type is asked for. -/
  promote : Scalar → Scalar
  /-- What two values become as the operands of one operator. -/
  balance : Scalar → Scalar → Scalar × Scalar
  /-- What the value of one of two branches with the given types becomes. -/
  join : ScalarType → ScalarType → Scalar → Scalar
  /-- The value of a comparison. -/
  truth : Bool → Scalar
  /-- The quotient of integers, for a divisor that is not zero. -/
  quotient : Int → Int → Scalar
  /-- The remainder of integers, for a divisor that is not zero. -/
  remainder : Int → Int → Option Scalar

namespace Rules

/-- The rules of C: operands are converted, and integers are divided toward zero. -/
def implicit : Rules where
  adapt := Scalar.convert
  promote v := if v.type = .bool then v.convert .int else v
  balance v w :=
    if v.type = .float ∨ w.type = .float then (v.convert .float, w.convert .float)
    else (v.convert .int, w.convert .int)
  join s t v := if s = .float ∨ t = .float then v.convert .float else v.convert .int
  truth b := .int (Scalar.bit b)
  quotient a b := .int (a.tdiv b)
  remainder a b := some (.int (a.tmod b))

/-- Rules without conversions: division is exact, and `%` has no meaning for integers. -/
def explicit : Rules where
  adapt _ v := v
  promote v := v
  balance v w := (v, w)
  join _ _ v := v
  truth b := .bool b
  quotient a b := .float (a / b)
  remainder _ _ := none

variable (rules : Rules)

/-- An operator on integers; nothing is divided by zero or shifted by a negative number. -/
def onInts (op : BinaryOp) (a b : Int) : Option Scalar :=
  match op with
  | .add => some (.int (a + b))
  | .sub => some (.int (a - b))
  | .mul => some (.int (a * b))
  | .div => if b = 0 then none else some (rules.quotient a b)
  | .mod => if b = 0 then none else rules.remainder a b
  | .bitAnd => some (.int (Int.land a b))
  | .bitOr => some (.int (Int.lor a b))
  | .bitXor => some (.int (Int.xor a b))
  | .shl => if 0 ≤ b then some (.int (a * 2 ^ b.toNat)) else none
  | .shr => if 0 ≤ b then some (.int (a / 2 ^ b.toNat)) else none
  | _ => (op.compare? a b).map rules.truth

/-- An operator on rational numbers; nothing is divided by zero. -/
def onFloats (op : BinaryOp) (a b : Rat) : Option Scalar :=
  match op with
  | .add => some (.float (a + b))
  | .sub => some (.float (a - b))
  | .mul => some (.float (a * b))
  | .div => if b = 0 then none else some (.float (a / b))
  | _ => (op.compare? a b).map rules.truth

/-- A binary operator other than a connective. -/
def binary (op : BinaryOp) (v w : Scalar) : Option Scalar :=
  match rules.balance v w with
  | (.int a, .int b) => rules.onInts op a b
  | (.float a, .float b) => rules.onFloats op a b
  | (.bool a, .bool b) => (op.compare? a b).map rules.truth
  | _ => none

/-- The truth of a condition. -/
def condition? (v : Scalar) : Option Bool :=
  match rules.adapt .bool v with
  | .bool b => some b
  | _ => none

/-- A unary operator that writes nothing. -/
def unary (op : UnaryOp) (v : Scalar) : Option Scalar :=
  match op, rules.promote v with
  | .neg, .int n => some (.int (-n))
  | .neg, .float q => some (.float (-q))
  | .plus, .int n => some (.int n)
  | .plus, .float q => some (.float q)
  | .bitNot, .int n => some (.int (Int.lnot n))
  | .not, _ => (rules.condition? v).map fun b => rules.truth !b
  | _, _ => none

/-- A value where a type is asked for. -/
def expect? (t : ScalarType) (v : Scalar) : Option Scalar :=
  if (rules.adapt t v).type = t then some (rules.adapt t v) else none

/-- The value that is added or taken away by an increment or decrement, and the operator. -/
def step (op : UnaryOp) (v : Scalar) : Option Scalar :=
  match op with
  | .preInc | .postInc => rules.binary .add v (.one v.type)
  | .preDec | .postDec => rules.binary .sub v (.one v.type)
  | _ => none

end Rules

/-! ### Literals -/

/-- The rational number that a decimal stands for. -/
def Decimal.toRat (d : Decimal) : Rat :=
  let sign : Int := if d.negative then -1 else 1
  match d.exponent with
  | .ofNat k => mkRat (sign * (d.coefficient * pow10 k)) 1
  | .negSucc k => mkRat (sign * d.coefficient) (pow10 (k + 1))

namespace Literal

/-- A signed integer of any size. -/
def signedInt? (radix : Nat) (text : List Char) : Option Int :=
  match text with
  | '-' :: digits => (readDigits? radix digits).map fun n => -(n : Int)
  | '+' :: digits => (readDigits? radix digits).map Int.ofNat
  | digits => (readDigits? radix digits).map Int.ofNat

/-- Read a text with its radix: sixteen after a hexadecimal mark, eight after a zero, else ten. -/
def withRadix (read : Nat → List Char → Option Int) (text : List Char) : Option Int :=
  let trimmed := dropTrailing isIntSuffix text
  match afterHexMark? trimmed with
  | some digits => read 16 digits
  | none =>
    match trimmed with
    | '0' :: c :: rest => read 8 (c :: rest)
    | _ => read 10 trimmed

/-- The value of an integer text of any size. -/
def integer? (text : List Char) : Option Int :=
  withRadix signedInt? text

/-- The value of a decimal floating text. -/
def rational? (text : List Char) : Option Rat :=
  let (negative, rest) := Decimal.splitSign (dropFloatSuffix text)
  (Decimal.readUnsigned? negative rest).map Decimal.toRat

/-- The value of a literal; a string has none. -/
def scalar? (literal : Literal) : Option Scalar :=
  match literal.kind with
  | .int => (integer? literal.text.toList).map .int
  | .char => (readChar? literal.text.toList).map fun code => .int code
  | .float => (rational? literal.text.toList).map .float
  | .string => none

end Literal

end MathKernel
