/-!
# Operators

The binary, unary and assignment operators, their spellings and their binding strengths.
-/

namespace MathKernel

/-- Binary operators. -/
inductive BinaryOp where
  | add | sub | mul | div | mod
  | lt | le | gt | ge | eq | ne
  | and | or
  | bitAnd | bitOr | bitXor | shl | shr
  deriving DecidableEq, Repr

namespace BinaryOp

/-- Every binary operator. -/
def all : List BinaryOp :=
  [add, sub, mul, div, mod, lt, le, gt, ge, eq, ne, and, or, bitAnd, bitOr, bitXor, shl, shr]

/-- The C spelling. -/
def symbol : BinaryOp → String
  | add => "+"
  | sub => "-"
  | mul => "*"
  | div => "/"
  | mod => "%"
  | lt => "<"
  | le => "<="
  | gt => ">"
  | ge => ">="
  | eq => "=="
  | ne => "!="
  | and => "&&"
  | or => "||"
  | bitAnd => "&"
  | bitOr => "|"
  | bitXor => "^"
  | shl => "<<"
  | shr => ">>"

/-- The operator with the given spelling. -/
def ofSymbol? (text : String) : Option BinaryOp :=
  all.find? (·.symbol == text)

/-- Binding strength; higher binds tighter. -/
def precedence : BinaryOp → Nat
  | or => 4
  | and => 5
  | bitOr => 6
  | bitXor => 7
  | bitAnd => 8
  | eq | ne => 9
  | lt | le | gt | ge => 10
  | shl | shr => 11
  | add | sub => 12
  | mul | div | mod => 13

/-- Whether the operator compares its operands. -/
def isComparison : BinaryOp → Bool
  | lt | le | gt | ge | eq | ne => true
  | _ => false

/-- Whether the operator is a short-circuit connective. -/
def isLogical : BinaryOp → Bool
  | and | or => true
  | _ => false

/-- Whether the operator works on the bits of integers. -/
def isBitwise : BinaryOp → Bool
  | bitAnd | bitOr | bitXor | shl | shr => true
  | _ => false

end BinaryOp

/-- Unary operators; the increments and decrements stand before or after their operand. -/
inductive UnaryOp where
  | neg | plus | not | bitNot
  | preInc | preDec | postInc | postDec
  deriving DecidableEq, Repr

namespace UnaryOp

/-- Every unary operator. -/
def all : List UnaryOp :=
  [neg, plus, not, bitNot, preInc, preDec, postInc, postDec]

/-- The C spelling. -/
def symbol : UnaryOp → String
  | neg => "-"
  | plus => "+"
  | not => "!"
  | bitNot => "~"
  | preInc | postInc => "++"
  | preDec | postDec => "--"

/-- Whether the operator stands after its operand. -/
def isTrailing : UnaryOp → Bool
  | postInc | postDec => true
  | _ => false

/-- The spelling in tree dumps, which marks trailing operators. -/
def dumpName (op : UnaryOp) : String :=
  if op.isTrailing then "p" ++ op.symbol else op.symbol

/-- The operator with the given spelling in tree dumps. -/
def ofDumpName? (text : String) : Option UnaryOp :=
  all.find? (·.dumpName == text)

/-- Whether the operator writes to its operand. -/
def isMutating : UnaryOp → Bool
  | preInc | preDec | postInc | postDec => true
  | _ => false

end UnaryOp

/-- Assignment operators. -/
inductive AssignOp where
  | assign
  | add | sub | mul | div | mod
  | bitAnd | bitOr | bitXor | shl | shr
  deriving DecidableEq, Repr

namespace AssignOp

/-- Every assignment operator. -/
def all : List AssignOp :=
  [assign, add, sub, mul, div, mod, bitAnd, bitOr, bitXor, shl, shr]

/-- The operation that a compound assignment applies before it stores. -/
def binary? : AssignOp → Option BinaryOp
  | assign => none
  | add => some .add
  | sub => some .sub
  | mul => some .mul
  | div => some .div
  | mod => some .mod
  | bitAnd => some .bitAnd
  | bitOr => some .bitOr
  | bitXor => some .bitXor
  | shl => some .shl
  | shr => some .shr

/-- The C spelling. -/
def symbol (op : AssignOp) : String :=
  match op.binary? with
  | none => "="
  | some b => b.symbol ++ "="

/-- The operator with the given spelling. -/
def ofSymbol? (text : String) : Option AssignOp :=
  all.find? (·.symbol == text)

end AssignOp

/-- Storage classes of a declaration. -/
inductive Storage where
  | static
  | external
  | register
  | auto
  deriving DecidableEq, Repr

namespace Storage

/-- Every storage class. -/
def all : List Storage := [static, external, register, auto]

/-- The C spelling. -/
def keyword : Storage → String
  | static => "static"
  | external => "extern"
  | register => "register"
  | auto => "auto"

/-- The storage class with the given spelling. -/
def ofKeyword? (text : String) : Option Storage :=
  all.find? (·.keyword == text)

end Storage

end MathKernel
