import MathKernel.Syntax.Traversal

/-!
# Block scoping

A name declared in a block is known from its declaration to the end of the block; its own size
and initializer still see what was known before. A `for` loop that declares variables is a scope
of its own. A declaration that stands alone as a branch or loop body belongs to the block around
it.

The walks below thread a scope of any type `σ` through a body: `declare` adds a declaration to
it. One lists the outermost expressions with their scopes, the other maps them.

## Main definitions

* `Stmt.scopedExprs`, `Stmt.mapScopedM`: the two walks.
* `Block.renameIds`: renaming of free identifiers.
-/

namespace MathKernel

/-- Declare in order. -/
def declareAll {σ : Type} (declare : Decl → σ → σ) (decls : List Decl) (scope : σ) : σ :=
  decls.foldl (fun s d => declare d s) scope

/-- The outermost expressions of declarations, each with the scope it sees. -/
def Decl.scopedExprsList {σ : Type} (declare : Decl → σ → σ) :
    σ → List Decl → List (σ × Expr) × σ
  | scope, [] => ([], scope)
  | scope, d :: rest =>
    let (found, last) := scopedExprsList declare (declare d scope) rest
    (d.rootExprs.map (scope, ·) ++ found, last)

namespace Stmt

mutual

/-- The outermost expressions of a statement, each with the scope it sees, and the scope that
the statement leaves. -/
def scopedExprs {σ : Type} (declare : Decl → σ → σ) : σ → Stmt → List (σ × Expr) × σ
  | scope, decl d _ => (d.rootExprs.map (scope, ·), declare d scope)
  | scope, block items _ _ => ((scopedExprsList declare scope items).1, scope)
  | scope, expr e _ => ([(scope, e)], scope)
  | scope, ifThen p t _ =>
    let (inTrue, after) := scopedExprs declare scope t
    ((scope, p) :: inTrue, after)
  | scope, ifElse p t e _ =>
    let (inTrue, between) := scopedExprs declare scope t
    let (inFalse, after) := scopedExprs declare between e
    ((scope, p) :: inTrue ++ inFalse, after)
  | scope, forLoop (some (.decls ds)) cond next body _ =>
    let (inInit, inner) := Decl.scopedExprsList declare scope ds
    let (inBody, _) := scopedExprs declare inner body
    (inInit ++ (cond.toList ++ next.toList).map (inner, ·) ++ inBody, scope)
  | scope, forLoop (some (.expr e)) cond next body _ =>
    let (inBody, after) := scopedExprs declare scope body
    ((e :: cond.toList ++ next.toList).map (scope, ·) ++ inBody, after)
  | scope, forLoop none cond next body _ =>
    let (inBody, after) := scopedExprs declare scope body
    ((cond.toList ++ next.toList).map (scope, ·) ++ inBody, after)
  | scope, whileLoop p body _ =>
    let (inBody, after) := scopedExprs declare scope body
    ((scope, p) :: inBody, after)
  | scope, doWhile p body _ =>
    let (inBody, after) := scopedExprs declare scope body
    ((scope, p) :: inBody, after)
  | scope, ret value _ => (value.toList.map (scope, ·), scope)
  | scope, label _ s _ => scopedExprs declare scope s
  | scope, brk _ => ([], scope)
  | scope, cont _ => ([], scope)
  | scope, goto .. => ([], scope)
  | scope, empty _ => ([], scope)

/-- The outermost expressions of statements in order. -/
def scopedExprsList {σ : Type} (declare : Decl → σ → σ) :
    σ → List Stmt → List (σ × Expr) × σ
  | scope, [] => ([], scope)
  | scope, s :: rest =>
    let (here, next) := scopedExprs declare scope s
    let (found, last) := scopedExprsList declare next rest
    (here ++ found, last)

end

end Stmt

section Maps

variable {m : Type → Type} [Monad m] {σ : Type}

/-- Map the outermost expressions of declarations with the scopes they see. -/
def Decl.mapScopedListM (declare : Decl → σ → σ) (f : σ → Expr → m Expr) :
    σ → List Decl → m (List Decl × σ)
  | scope, [] => pure ([], scope)
  | scope, d :: rest => do
    let d' ← d.mapExprsM (f scope)
    let (rest, last) ← mapScopedListM declare f (declare d scope) rest
    pure (d' :: rest, last)

namespace Stmt

mutual

/-- Map the outermost expressions of a statement with the scopes they see. -/
def mapScopedM (declare : Decl → σ → σ) (f : σ → Expr → m Expr) : σ → Stmt → m (Stmt × σ)
  | scope, decl d c => do
    let d' ← d.mapExprsM (f scope)
    pure (decl d' c, declare d scope)
  | scope, block items b c => do
    let (items, _) ← mapScopedListM declare f scope items
    pure (block items b c, scope)
  | scope, expr e c => do
    let e ← f scope e
    pure (expr e c, scope)
  | scope, ifThen p t c => do
    let p ← f scope p
    let (t, after) ← mapScopedM declare f scope t
    pure (ifThen p t c, after)
  | scope, ifElse p t e c => do
    let p ← f scope p
    let (t, between) ← mapScopedM declare f scope t
    let (e, after) ← mapScopedM declare f between e
    pure (ifElse p t e c, after)
  | scope, forLoop (some (.decls ds)) cond next body c => do
    let (ds, inner) ← Decl.mapScopedListM declare f scope ds
    let cond ← mapOptionM (f inner) cond
    let next ← mapOptionM (f inner) next
    let (body, _) ← mapScopedM declare f inner body
    pure (forLoop (some (.decls ds)) cond next body c, scope)
  | scope, forLoop (some (.expr e)) cond next body c => do
    let e ← f scope e
    let cond ← mapOptionM (f scope) cond
    let next ← mapOptionM (f scope) next
    let (body, after) ← mapScopedM declare f scope body
    pure (forLoop (some (.expr e)) cond next body c, after)
  | scope, forLoop none cond next body c => do
    let cond ← mapOptionM (f scope) cond
    let next ← mapOptionM (f scope) next
    let (body, after) ← mapScopedM declare f scope body
    pure (forLoop none cond next body c, after)
  | scope, whileLoop p body c => do
    let p ← f scope p
    let (body, after) ← mapScopedM declare f scope body
    pure (whileLoop p body c, after)
  | scope, doWhile p body c => do
    let p ← f scope p
    let (body, after) ← mapScopedM declare f scope body
    pure (doWhile p body c, after)
  | scope, ret value c => do
    let value ← mapOptionM (f scope) value
    pure (ret value c, scope)
  | scope, label n s c => do
    let (s, after) ← mapScopedM declare f scope s
    pure (label n s c, after)
  | scope, brk c => pure (brk c, scope)
  | scope, cont c => pure (cont c, scope)
  | scope, goto l c => pure (goto l c, scope)
  | scope, empty c => pure (empty c, scope)

/-- Map the outermost expressions of statements in order. -/
def mapScopedListM (declare : Decl → σ → σ) (f : σ → Expr → m Expr) :
    σ → List Stmt → m (List Stmt × σ)
  | scope, [] => pure ([], scope)
  | scope, s :: rest => do
    let (s, next) ← mapScopedM declare f scope s
    let (rest, last) ← mapScopedListM declare f next rest
    pure (s :: rest, last)

end

end Stmt

end Maps

/-! ### Renaming -/

/-- A scope that only knows which names are declared. -/
def declareName (d : Decl) (hidden : List String) : List String :=
  match d.name with
  | some name => name :: hidden
  | none => hidden

/-- New names by old ones; the first entry for a name counts. -/
abbrev Renames := List (String × String)

/-- The new name of an identifier that is not hidden. -/
def Renames.lookup? (renames : Renames) (hidden : List String) : Expr → Option Expr
  | .id name c =>
    if hidden.contains name then none
    else (renames.lookup name).map fun new => .id new c
  | _ => none

/-- Rename the identifiers of an expression that are not hidden. -/
def Expr.renameIds (renames : Renames) (hidden : List String) (e : Expr) : Counted Expr :=
  e.bottomUpM (Counted.replace (renames.lookup? hidden))

/-- Rename the identifiers in a declaration's size and initializer. -/
def Decl.renameIds (renames : Renames) (d : Decl) : Counted Decl :=
  d.mapExprsM (Expr.renameIds renames [])

/-- Rename the identifiers of a body that neither a parameter nor a local declaration hides.
Names of called functions stay. -/
def Block.renameIds (renames : Renames) (params : List String) (b : Block) : Counted Block := do
  let (items, _) ← Stmt.mapScopedListM declareName (Expr.renameIds renames) params b.items
  pure { b with items }

/-- The names of a function's parameters. -/
def FuncDef.paramNames (f : FuncDef) : List String :=
  f.params.filterMap Decl.name

/-! ### Writes -/

/-- The variable at the root of an assigned expression: `x` for `x` and `x[i]`. -/
def Expr.lvalueRoot? : Expr → Option String
  | .id name _ => some name
  | .index array _ _ => array.lvalueRoot?
  | _ => none

/-- The expression that an expression writes to. -/
def Expr.writeTarget? : Expr → Option Expr
  | .assign _ target _ _ => some target
  | .unary op operand _ => if op.isMutating then some operand else none
  | _ => none

/-- Whether evaluating an expression writes to a variable. -/
def Expr.hasSideEffects (e : Expr) : Bool :=
  e.subexprs.any fun s => s.writeTarget?.isSome

mutual

/-- Equality up to positions. -/
def Expr.same : Expr → Expr → Bool
  | .id x _, .id y _ => x == y
  | .literal x _, .literal y _ => x == y
  | .binary o l r _, .binary p s t _ => o == p && l.same s && r.same t
  | .unary o x _, .unary p y _ => o == p && x.same y
  | .assign o t v _, .assign p u w _ => o == p && t.same u && v.same w
  | .ternary a b c _, .ternary x y z _ => a.same x && b.same y && c.same z
  | .call f xs _, .call g ys _ => f == g && Expr.sameList xs ys
  | .cast t x _, .cast u y _ => t == u && x.same y
  | .index a i _, .index b j _ => a.same b && i.same j
  | .initList xs _, .initList ys _ => Expr.sameList xs ys
  | .comma xs _, .comma ys _ => Expr.sameList xs ys
  | _, _ => false

/-- Equality of lists up to positions. -/
def Expr.sameList : List Expr → List Expr → Bool
  | [], [] => true
  | x :: xs, y :: ys => x.same y && Expr.sameList xs ys
  | _, _ => false

end

end MathKernel
