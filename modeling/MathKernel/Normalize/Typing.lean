import MathKernel.Syntax.Tree
import MathKernel.Normalize.MathNames

/-!
# Types of expressions

C's types, restricted to the four element types: an array has the type of its elements, and a
name that nothing declares is taken for a `float`.

## Main definitions

* `Signature`, `TypeEnv`: what is known of functions and variables.
* `Expr.typeIn`: the type of an expression.
-/

namespace MathKernel

/-- The types that a function's arguments are converted to. -/
inductive ParamTypes where
  /-- The declared parameters in order; an array parameter has no entry. -/
  | fixed (types : List (Option ScalarType))
  /-- Any number of arguments of one type. -/
  | uniform (type : ScalarType)
  /-- Arguments are taken as they are. -/
  | unchecked
  deriving DecidableEq, Repr

/-- The types of a function. -/
structure Signature where
  result : ScalarType
  params : ParamTypes
  deriving DecidableEq, Repr

namespace Signature

/-- The type that the argument at a position is converted to. -/
def param? (s : Signature) (i : Nat) : Option ScalarType :=
  match s.params with
  | .fixed types => types[i]?.join
  | .uniform type => some type
  | .unchecked => none

/-- The signature that a function's declaration gives. -/
def ofDecl? (d : Decl) : Option Signature :=
  match d.type with
  | .function params _ _ =>
    some ⟨d.scalar, .fixed (params.map fun p => if p.isArray then none else some p.scalar)⟩
  | _ => none

/-- The function that a declaration declares, with its signature. -/
def declared? (d : Decl) : Option (String × Signature) :=
  (ofDecl? d).bind fun s => d.name.map (·, s)

end Signature

/-- The function that gives the remainder of integers. -/
def remainderFunction : String := "imod"

/-- Functions that need no declaration: the coercions, which take anything, the generic math
functions, the integer remainder and the parity test. -/
def builtinSignatures : List (String × Signature) :=
  ([.int, .float, .bool] : List ScalarType).map (fun t => (t.cName, ⟨t, .unchecked⟩)) ++
    mathAliases.map (fun (_, generic) => (generic, ⟨.float, .uniform .float⟩)) ++
    [(remainderFunction, ⟨.int, .fixed [some .int, some .int]⟩),
      ("is_odd", ⟨.bool, .fixed [some .int]⟩)]

/-- The types of functions and variables; the first entry for a name counts. -/
structure TypeEnv where
  functions : List (String × Signature)
  vars : List (String × ScalarType)

namespace TypeEnv

/-- What the file-level items of a unit declare, the last declaration of a name first, and the
functions that need no declaration. -/
def ofUnit (u : SourceUnit) : TypeEnv :=
  let decls := (u.items.map Item.toDecl).reverse
  { functions := decls.filterMap Signature.declared? ++ builtinSignatures
    vars := decls.filterMap fun d => if d.isFunction then none else d.name.map (·, d.scalar) }

/-- Declare a variable. -/
def declare (env : TypeEnv) (d : Decl) : TypeEnv :=
  match d.name with
  | some name => { env with vars := (name, d.scalar) :: env.vars }
  | none => env

/-- The signature of a function. -/
def signature? (env : TypeEnv) (name : String) : Option Signature :=
  env.functions.lookup name

/-- The type of a call's result. -/
def resultType (env : TypeEnv) (name : String) : ScalarType :=
  ((env.signature? name).map Signature.result).getD .float

/-- The type of a variable. -/
def variableType (env : TypeEnv) (name : String) : ScalarType :=
  (env.vars.lookup name).getD .float

end TypeEnv

namespace ScalarType

/-- The common type of two operands of a comparison or two branches. -/
def unify (a b : ScalarType) : ScalarType :=
  if a = b then a
  else if a = float ∨ b = float then float
  else int

/-- The common type of two operands of arithmetic, in which truth values are integers. -/
def arithmetic (a b : ScalarType) : ScalarType :=
  match unify a b with
  | bool => int
  | type => type

end ScalarType

/-- The type of a literal. -/
def LiteralKind.scalar : LiteralKind → ScalarType
  | .int | .char => .int
  | .float | .string => .float

/-- The type of an operator's result from those of its operands. -/
def BinaryOp.resultType (op : BinaryOp) (left right : ScalarType) : ScalarType :=
  if op.isLogical then .bool
  else if op.isBitwise then .int
  else if op.isComparison then .bool
  else .arithmetic left right

/-- The type of an operator's result from that of its operand. -/
def UnaryOp.resultType (op : UnaryOp) (operand : ScalarType) : ScalarType :=
  match op with
  | .not => .bool
  | .bitNot => .int
  | .neg | .plus => if operand = .bool then .int else operand
  | .preInc | .preDec | .postInc | .postDec => operand

namespace Expr

mutual

/-- The type of an expression. -/
def typeIn (env : TypeEnv) : Expr → ScalarType
  | id name _ => env.variableType name
  | literal value _ => value.kind.scalar
  | binary op l r _ => op.resultType (l.typeIn env) (r.typeIn env)
  | unary op e _ => op.resultType (e.typeIn env)
  | assign _ target _ _ => target.typeIn env
  | ternary _ t e _ => .unify (t.typeIn env) (e.typeIn env)
  | call callee _ _ => env.resultType callee
  | cast type _ _ => type
  | index array _ _ => array.typeIn env
  | initList _ _ => .float
  | comma items _ => lastTypeIn env items

/-- The type of the last expression of a list; an empty one has none. -/
def lastTypeIn (env : TypeEnv) : List Expr → ScalarType
  | [] => .void
  | [e] => e.typeIn env
  | _ :: rest => lastTypeIn env rest

end

end Expr

end MathKernel
