import MathKernel.Normalize.Scope
import MathKernel.Normalize.Typing

/-!
# Explicit coercions

Where C converts between `int`, `float` and `bool`, a call of the coercion function is written.
Division of integers is truncated by a coercion, their remainder is a call, and a compound
assignment to an integer that needs either is written out as a plain one.

## Main definitions

* `Expr.coerce`: one conversion.
* `Expr.coerced`, `Stmt.coerced`, `SourceUnit.coerced`: the pass.
-/

namespace MathKernel

namespace Expr

/-- The floating literal for an integer literal, which may be negated. -/
def toFloatLiteral? : Expr → Option Expr
  | literal ⟨.int, text⟩ c =>
    (Literal.readInt? text.toList).map fun n => float (toString n ++ ".0") c
  | unary .neg operand c => operand.toFloatLiteral?.map (unary .neg · c)
  | _ => none

/-- Convert an expression between types. Nothing is done for equal types or `void`; an integer
literal becomes a floating one. -/
def coerce (source target : ScalarType) (e : Expr) : Counted Expr :=
  if source = target ∨ source = .void ∨ target = .void then pure e
  else
    let call := Expr.call target.cName [e] e.coord
    if target = .float then .change (e.toFloatLiteral?.getD call) else .change call

/-- The type that an argument is converted to; one without a declared type stays as it is. -/
def coerceArg (source : ScalarType) (target : Option ScalarType) (e : Expr) : Counted Expr :=
  match target with
  | some t => e.coerce source t
  | none => pure e

/-- The operand of `!` is a truth value, that of `~` an integer; a sign makes a truth value an
integer. -/
def coerceOperand (op : UnaryOp) (source : ScalarType) (e : Expr) : Counted Expr :=
  match op with
  | .not => e.coerce source .bool
  | .bitNot => e.coerce source .int
  | .neg | .plus => if source = .bool then e.coerce source .int else pure e
  | .preInc | .preDec | .postInc | .postDec => pure e

/-- The type that the operands of a binary operator are converted to. -/
def operandType (op : BinaryOp) (left right : ScalarType) : ScalarType :=
  if op.isLogical then .bool
  else if op.isBitwise then .int
  else if op.isComparison then .unify left right
  else .arithmetic left right

/-- Apply an operator to converted operands. A quotient of integers is truncated unless it is
already the argument of a truncation, and their remainder is a call. -/
def applyBinary (op : BinaryOp) (operands : ScalarType) (truncated : Bool) (l r : Expr)
    (c : Coord) : Counted Expr :=
  match op, operands with
  | .div, .int =>
    if truncated then pure (binary .div l r c)
    else .change (call ScalarType.int.cName [binary .div l r c] c)
  | .mod, .int => .change (call remainderFunction [l, r] c)
  | _, _ => pure (binary op l r c)

/-- Whether a compound assignment to `target` is written out: the target is an integer, the
operation does not yield one in place, and the target can be evaluated twice. -/
def isWrittenOut (op : BinaryOp) (targetType valueType : ScalarType) (target : Expr) : Bool :=
  targetType == .int && (valueType == .float || op == .div || op == .mod) && !target.hasSideEffects

mutual

/-- Convert the parts of an expression. `again` converts the combined value of a compound
assignment that is written out; `truncated` holds for the argument of a truncation. -/
def coercedWith (again : Expr → Counted Expr) (env : TypeEnv) (truncated : Bool) :
    Expr → Counted Expr
  | id n c => pure (id n c)
  | literal v c => pure (literal v c)
  | binary op l r c => do
    let common := operandType op (l.typeIn env) (r.typeIn env)
    let l' ← l.coercedWith again env false
    let r' ← r.coercedWith again env false
    let l' ← l'.coerce (l.typeIn env) common
    let r' ← r'.coerce (r.typeIn env) common
    applyBinary op common truncated l' r' c
  | unary op e c => do
    let e' ← e.coercedWith again env false
    let e' ← e'.coerceOperand op (e.typeIn env)
    pure (unary op e' c)
  | assign op t v c => do
    let t' ← t.coercedWith again env false
    let v' ← v.coercedWith again env false
    match op.binary? with
    | some b =>
      if isWrittenOut b (t.typeIn env) (v.typeIn env) t' then do
        let combined := binary b t' v' none
        let value ← again combined
        let value ← value.coerce (combined.typeIn env) .int
        .change (assign .assign t' value c)
      else do
        let v' ← v'.coerce (v.typeIn env) (t.typeIn env)
        pure (assign op t' v' c)
    | none => do
      let v' ← v'.coerce (v.typeIn env) (t.typeIn env)
      pure (assign op t' v' c)
  | ternary p t e c => do
    let common := ScalarType.unify (t.typeIn env) (e.typeIn env)
    let p' ← p.coercedWith again env false
    let p' ← p'.coerce (p.typeIn env) .bool
    let t' ← t.coercedWith again env false
    let e' ← e.coercedWith again env false
    let t' ← t'.coerce (t.typeIn env) common
    let e' ← e'.coerce (e.typeIn env) common
    pure (ternary p' t' e' c)
  | call callee args c => do
    let args ← coercedArgs again env (callee == ScalarType.int.cName) (env.signature? callee) 0 args
    pure (call callee args c)
  | cast type e c => do
    let e' ← e.coercedWith again env false
    pure (cast type e' c)
  | index a i c => do
    let a' ← a.coercedWith again env false
    let i' ← i.coercedWith again env false
    let i' ← i'.coerce (i.typeIn env) .int
    pure (index a' i' c)
  | initList items c => do
    let items ← coercedList again env items
    pure (initList items c)
  | comma items c => do
    let items ← coercedList again env items
    pure (comma items c)

/-- Convert the parts of the arguments from a position on, and the arguments to the types of the
parameters. -/
def coercedArgs (again : Expr → Counted Expr) (env : TypeEnv) (truncates : Bool)
    (signature : Option Signature) (i : Nat) : List Expr → Counted (List Expr)
  | [] => pure []
  | e :: rest => do
    let e' ← e.coercedWith again env (truncates && i == 0)
    let e' ← e'.coerceArg (e.typeIn env) (signature.bind (·.param? i))
    let rest ← coercedArgs again env truncates signature (i + 1) rest
    pure (e' :: rest)

/-- Convert the parts of each expression of a list. -/
def coercedList (again : Expr → Counted Expr) (env : TypeEnv) : List Expr → Counted (List Expr)
  | [] => pure []
  | e :: rest => do
    let e' ← e.coercedWith again env false
    let rest ← coercedList again env rest
    pure (e' :: rest)

end

/-- Whether an expression is a compound assignment. -/
def isCompoundAssign : Expr → Bool
  | assign op .. => op.binary?.isSome
  | _ => false

/-- The number of compound assignments in an expression. -/
def compoundAssigns (e : Expr) : Nat :=
  (e.subexprs.filter isCompoundAssign).length

/-- Convert the parts of an expression, written-out assignments up to `depth` times over. -/
def coercedTo (env : TypeEnv) : Nat → Expr → Counted Expr
  | 0, e => e.coercedWith pure env false
  | depth + 1, e => e.coercedWith (coercedTo env depth) env false

/-- Convert the parts of an expression. Writing out a compound assignment leaves one fewer of
them, so their number bounds how often the value is converted again. -/
def coerced (env : TypeEnv) (e : Expr) : Counted Expr :=
  e.coercedTo env e.compoundAssigns

/-- Convert an expression and its parts to a type. -/
def coercedAs (env : TypeEnv) (target : ScalarType) (e : Expr) : Counted Expr := do
  let e' ← e.coerced env
  e'.coerce (e.typeIn env) target

/-- Convert each of the items of an initializer list. -/
def coercedItems (env : TypeEnv) (target : ScalarType) : List Expr → Counted (List Expr)
  | [] => pure []
  | e :: rest => do
    let e' ← e.coercedAs env target
    let rest ← coercedItems env target rest
    pure (e' :: rest)

end Expr

/-- Convert an initializer to the declared type; an array initialized from an expression is
left to the reader of the declaration. -/
def Decl.coercedInit (env : TypeEnv) (d : Decl) : Counted (Option Expr) :=
  match d.init with
  | some (.initList items c) => do
    let items ← Expr.coercedItems env d.scalar items
    pure (some (.initList items c))
  | some e =>
    if d.isArray then do
      let e ← e.coerced env
      pure (some e)
    else do
      let e ← e.coercedAs env d.scalar
      pure (some e)
  | none => pure none

/-- Convert the initializer of a declaration. -/
def Decl.coerced (env : TypeEnv) (d : Decl) : Counted Decl := do
  let init ← d.coercedInit env
  pure { d with init }

/-- Convert declarations in order, each seeing those before it. -/
def Decl.coercedList (env : TypeEnv) : List Decl → Counted (List Decl × TypeEnv)
  | [] => pure ([], env)
  | d :: rest => do
    let d' ← d.coerced env
    let (rest, last) ← Decl.coercedList (env.declare d) rest
    pure (d' :: rest, last)

/-- Convert an initializer clause, and declare what it declares. -/
def ForInit.coerced (env : TypeEnv) : Option ForInit → Counted (Option ForInit × TypeEnv)
  | none => pure (none, env)
  | some (.decls ds) => do
    let (ds, inner) ← Decl.coercedList env ds
    pure (some (.decls ds), inner)
  | some (.expr e) => do
    let e ← e.coerced env
    pure (some (.expr e), env)

namespace Stmt

mutual

/-- Convert the expressions of a statement in a function with the given result type. The result
is paired with the environment that the statement leaves. -/
def coerced (result : ScalarType) : TypeEnv → Stmt → Counted (Stmt × TypeEnv)
  | env, decl d c => do
    let d' ← d.coerced env
    pure (decl d' c, env.declare d)
  | env, block items b c => do
    let (items, _) ← coercedList result env items
    pure (block items b c, env)
  | env, expr e c => do
    let e ← e.coerced env
    pure (expr e c, env)
  | env, ifThen p t c => do
    let p ← p.coercedAs env .bool
    let (t, after) ← coerced result env t
    pure (ifThen p t c, after)
  | env, ifElse p t e c => do
    let p ← p.coercedAs env .bool
    let (t, between) ← coerced result env t
    let (e, after) ← coerced result between e
    pure (ifElse p t e c, after)
  | env, forLoop init cond next body c => do
    let (init, inner) ← ForInit.coerced env init
    let cond ← mapOptionM (Expr.coercedAs inner .bool) cond
    let next ← mapOptionM (Expr.coerced inner) next
    let (body, _) ← coerced result inner body
    pure (forLoop init cond next body c, env)
  | env, whileLoop p body c => do
    let p ← p.coercedAs env .bool
    let (body, after) ← coerced result env body
    pure (whileLoop p body c, after)
  | env, doWhile p body c => do
    let p ← p.coercedAs env .bool
    let (body, after) ← coerced result env body
    pure (doWhile p body c, after)
  | env, ret value c => do
    let value ← mapOptionM (Expr.coercedAs env result) value
    pure (ret value c, env)
  | env, label n s c => do
    let (s, after) ← coerced result env s
    pure (label n s c, after)
  | env, brk c => pure (brk c, env)
  | env, cont c => pure (cont c, env)
  | env, goto l c => pure (goto l c, env)
  | env, empty c => pure (empty c, env)

/-- Convert the expressions of statements in order. -/
def coercedList (result : ScalarType) : TypeEnv → List Stmt → Counted (List Stmt × TypeEnv)
  | env, [] => pure ([], env)
  | env, s :: rest => do
    let (s, next) ← coerced result env s
    let (rest, last) ← coercedList result next rest
    pure (s :: rest, last)

end

end Stmt

/-- The environment of a function's body: its parameters and what the unit declares. -/
def FuncDef.bodyEnv (env : TypeEnv) (f : FuncDef) : TypeEnv :=
  f.params.foldl TypeEnv.declare env

/-- Convert the expressions of an item. -/
def Item.coerced (env : TypeEnv) : Item → Counted Item
  | .decl d =>
    if d.isFunction then pure (.decl d)
    else do
      let d ← d.coerced env
      pure (.decl d)
  | .func f => do
    let (items, _) ← Stmt.coercedList f.returnType (f.bodyEnv env) f.body.items
    pure (.func { f with body := { f.body with items } })

/-- Make every conversion of a unit explicit. -/
def SourceUnit.coerced (u : SourceUnit) : SourceUnit × Tally :=
  let result := u.mapItemsM (Item.coerced (TypeEnv.ofUnit u))
  (result.value, .ofChanged result.count)

end MathKernel
