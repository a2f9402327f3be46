import MathKernel.Syntax.Tree
import MathKernel.Kernel.Record

/-!
# Constant initializers

Initializers are folded to numbers. Folding is stated over any arithmetic, so that it can be read
with exact numbers as well as with rounded ones; programs use 64-bit floating point.

## Main definitions

* `Arithmetic`, `Binary64.arithmetic`: the numbers.
* `Expr.fold?`: the number that an expression folds to.
* `Decl.foldValue`: the record of an initialized or uninitialized variable.
-/

namespace MathKernel

/-- The operations of folding. -/
structure Arithmetic (ν : Type) where
  ofLiteral? : Literal → Option ν
  notANumber : ν
  neg : ν → ν
  add : ν → ν → ν
  sub : ν → ν → ν
  mul : ν → ν → ν
  div : ν → ν → ν
  /-- Drop the fractional part. -/
  trunc : ν → ν

/-- Folding in 64-bit floating point. -/
def Binary64.arithmetic : Arithmetic Binary64 where
  ofLiteral? := Literal.floatValue?
  notANumber := .nan
  neg := neg
  add := add
  sub := sub
  mul := mul
  div := div
  trunc := trunc

namespace Arithmetic

variable {ν : Type}

/-- The value of a unary operator that can be folded. -/
def unary? (A : Arithmetic ν) : UnaryOp → ν → Option ν
  | .neg, x => some (A.neg x)
  | .plus, x => some x
  | _, _ => none

/-- The value of a binary operator that can be folded. -/
def binary? (A : Arithmetic ν) : BinaryOp → ν → ν → Option ν
  | .add, x, y => some (A.add x y)
  | .sub, x, y => some (A.sub x y)
  | .mul, x, y => some (A.mul x y)
  | .div, x, y => some (A.div x y)
  | _, _, _ => none

/-- The value of a coercion that can be folded. -/
def coercion? (A : Arithmetic ν) : String → ν → Option ν
  | "float", x => some x
  | "int", x => some (A.trunc x)
  | _, _ => none

end Arithmetic

/-- The constants met so far, the latest first. -/
abbrev KnownConstants (ν : Type) := List (String × Value ν)

namespace KnownConstants

variable {ν : Type}

/-- The number of a constant that is a single number. -/
def number? (known : KnownConstants ν) (name : String) : Option ν :=
  match known.lookup name with
  | some (.scalar x) => some x
  | _ => none

/-- An item of a constant that is a list. -/
def item? (known : KnownConstants ν) (name : String) (index : Int) : Option ν :=
  match known.lookup name, index.toNat? with
  | some (.vector items), some i => items[i]?
  | _, _ => none

end KnownConstants

/-- The number that an expression folds to. -/
def Expr.fold? {ν : Type} (A : Arithmetic ν) (known : KnownConstants ν) : Expr → Option ν
  | .literal value _ => A.ofLiteral? value
  | .id name _ => if name = MathKernel.notANumber then some A.notANumber else known.number? name
  | .index array subscript _ => do known.item? (← array.idName?) (← subscript.intLiteral?)
  | .unary op e _ => do A.unary? op (← e.fold? A known)
  | .binary op l r _ => do A.binary? op (← l.fold? A known) (← r.fold? A known)
  | .call callee [arg] _ => do A.coercion? callee (← arg.fold? A known)
  | _ => none

/-! ### Literals of folded values -/

/-- Folded numbers are positional from `10 ^ -4` up to but not including `10 ^ 16`; elsewhere a
positive exponent has no sign. Of two equally near decimals the greater one is written. -/
def foldedLayout : FloatLayout :=
  { leastPositional := -4, endPositional := 16, signedExponent := false, tie := .up }

/-- The text of a floating literal without its suffix, also after a minus sign. -/
def Expr.floatSpelling? : Expr → Option String
  | .literal ⟨.float, text⟩ _ => some (String.ofList (Literal.dropFloatSuffix text.toList))
  | .unary .neg (.literal ⟨.float, text⟩ _) _ =>
    some ("-" ++ String.ofList (Literal.dropFloatSuffix text.toList))
  | _ => none

/-- The text of a folded number. Floating literals keep their spelling. -/
def foldedLiteral (type : ScalarType) (e : Expr) (x : Binary64) : String :=
  if x.isNaN then notANumber
  else
    match type with
    | .float => e.floatSpelling?.getD (foldedLayout.render x)
    | .bool => if x.isZero then "false" else "true"
    | .int | .void => toString x.toInt64

/-- The text of the zero that fills up an initializer. -/
def zeroLiteral : ScalarType → String
  | .float => "0.0"
  | .bool => "false"
  | .int | .void => "0"

/-! ### Variables -/

/-- Why a variable has no folded value. -/
inductive FoldError where
  | notConstant
  | unsizedArray
  | infinite
  deriving DecidableEq, Repr

/-- The number that an initializer gives a variable of a type, with its literal. -/
def Expr.foldNumber (known : KnownConstants Binary64) (type : ScalarType) (e : Expr) :
    Except FoldError (Binary64 × String) :=
  match e.fold? Binary64.arithmetic known with
  | none => .error .notConstant
  | some x =>
    if x.isInfinite then .error .infinite
    else
      let x := if type = .int then x.trunc else x
      .ok (x, foldedLiteral type e x)

/-- The items of an array's initializer. -/
def Decl.initItems (d : Decl) : Except FoldError (List Expr) :=
  match d.init with
  | some (.initList items _) => .ok items
  | some _ => .error .notConstant
  | none => .ok []

/-- The numbers of a variable, each with its literal; what is not initialized is zero. -/
def Decl.foldNumbers (known : KnownConstants Binary64) (d : Decl) :
    Except FoldError (Value (Binary64 × String)) :=
  let zero := (Binary64.zero false, zeroLiteral d.scalar)
  if d.isArray then
    match d.arrayLen? with
    | none => .error .unsizedArray
    | some len => do
      let items ← d.initItems
      let numbers ← (items.take len).mapM (Expr.foldNumber known d.scalar)
      return .vector (numbers ++ List.replicate (len - numbers.length) zero)
  else
    match d.init with
    | some e => (e.foldNumber known d.scalar).map .scalar
    | none => .ok (.scalar zero)

/-- Change each number. -/
def Value.map {ν μ : Type} (f : ν → μ) : Value ν → Value μ
  | .scalar x => .scalar (f x)
  | .vector items => .vector (items.map f)

/-- The record of a variable. -/
def Decl.foldValue (known : KnownConstants Binary64) (name : String) (d : Decl) :
    Except FoldError ValueKernel := do
  let value ← d.foldNumbers known
  return { name, type := d.scalar, value := value.map Prod.fst,
           literals := value.numbers.map Prod.snd }

end MathKernel
