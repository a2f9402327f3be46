import MathKernel.Syntax.Tree

/-!
# Walking syntax trees

Two views of a tree: the list of its nodes, parents before children, and a map over its nodes in
a monad, children before parents. Both go through the parts of a node in source order and leave
parameter lists alone.

## Main definitions

* `Expr.subexprs`, `Block.exprs`, `Block.stmts`, `Block.blocks`, `Block.decls`: the lists.
* `Expr.bottomUpM`, `Block.mapExprsM`, `Block.mapBlocksM`: the maps.
* `Counted`: a value together with the number of changes made to it.
-/

namespace MathKernel

/-! ### Lists of nodes -/

namespace Expr

mutual

/-- The expression and all below it, parents first. -/
def subexprs : Expr → List Expr
  | id n c => [id n c]
  | literal v c => [literal v c]
  | binary op l r c => binary op l r c :: (l.subexprs ++ r.subexprs)
  | unary op e c => unary op e c :: e.subexprs
  | assign op t v c => assign op t v c :: (t.subexprs ++ v.subexprs)
  | ternary p t e c => ternary p t e c :: (p.subexprs ++ t.subexprs ++ e.subexprs)
  | call f args c => call f args c :: subexprsList args
  | cast type e c => cast type e c :: e.subexprs
  | index a i c => index a i c :: (a.subexprs ++ i.subexprs)
  | initList items c => initList items c :: subexprsList items
  | comma items c => comma items c :: subexprsList items

/-- The expressions of a list and all below them. -/
def subexprsList : List Expr → List Expr
  | [] => []
  | e :: rest => e.subexprs ++ subexprsList rest

end

end Expr

namespace Decl

/-- The size expression of a declared array. -/
def size? (d : Decl) : Option Expr :=
  match d.type with
  | .array _ size _ => size
  | _ => none

/-- The expressions a declaration consists of: its array size, then its initializer. -/
def rootExprs (d : Decl) : List Expr :=
  d.size?.toList ++ d.init.toList

end Decl

namespace ForInit

/-- The declarations of an initializer clause. -/
def declList : ForInit → List Decl
  | decls ds => ds
  | expr _ => []

/-- The expressions an initializer clause consists of. -/
def rootExprs : ForInit → List Expr
  | decls ds => ds.flatMap Decl.rootExprs
  | expr e => [e]

end ForInit

namespace Stmt

/-- The declarations that a statement itself makes. -/
def ownDecls : Stmt → List Decl
  | decl d _ => [d]
  | forLoop init _ _ _ _ => init.toList.flatMap ForInit.declList
  | _ => []

/-- The expressions that belong to a statement itself and not to a statement inside it. -/
def ownExprs : Stmt → List Expr
  | decl d _ => d.rootExprs
  | expr e _ => [e]
  | ifThen cond _ _ => [cond]
  | ifElse cond _ _ _ => [cond]
  | forLoop init cond next _ _ =>
    init.toList.flatMap ForInit.rootExprs ++ cond.toList ++ next.toList
  | whileLoop cond _ _ => [cond]
  | doWhile cond _ _ => [cond]
  | ret value _ => value.toList
  | block .. | brk _ | cont _ | goto .. | label .. | empty _ => []

mutual

/-- The statement and all inside it, parents first. -/
def substmts : Stmt → List Stmt
  | decl d c => [decl d c]
  | block items b c => block items b c :: substmtsList items
  | expr e c => [expr e c]
  | ifThen p t c => ifThen p t c :: t.substmts
  | ifElse p t e c => ifElse p t e c :: (t.substmts ++ e.substmts)
  | forLoop i p n body c => forLoop i p n body c :: body.substmts
  | whileLoop p body c => whileLoop p body c :: body.substmts
  | doWhile p body c => doWhile p body c :: body.substmts
  | ret v c => [ret v c]
  | brk c => [brk c]
  | cont c => [cont c]
  | goto l c => [goto l c]
  | label n s c => label n s c :: s.substmts
  | empty c => [empty c]

/-- The statements of a list and all inside them. -/
def substmtsList : List Stmt → List Stmt
  | [] => []
  | s :: rest => s.substmts ++ substmtsList rest

end

end Stmt

namespace Block

/-- Every statement of a block, parents first. -/
def stmts (b : Block) : List Stmt :=
  Stmt.substmtsList b.items

/-- Every expression of a block, parents first. -/
def exprs (b : Block) : List Expr :=
  b.stmts.flatMap fun s => s.ownExprs.flatMap Expr.subexprs

/-- Every declaration made in a block. -/
def decls (b : Block) : List Decl :=
  b.stmts.flatMap Stmt.ownDecls

/-- The block and every block inside it, parents first. -/
def blocks (b : Block) : List Block :=
  b :: b.stmts.filterMap fun
    | .block items coord _ => some ⟨items, coord⟩
    | _ => none

end Block

/-- Every expression of a declaration, parents first. -/
def Decl.exprs (d : Decl) : List Expr :=
  d.rootExprs.flatMap Expr.subexprs

/-! ### Maps over nodes -/

section Maps

variable {m : Type → Type} [Monad m]

namespace Expr

mutual

/-- Apply `f` to every expression, children before parents. -/
def bottomUpM (f : Expr → m Expr) : Expr → m Expr
  | id n c => f (id n c)
  | literal v c => f (literal v c)
  | binary op l r c => do
    let l ← l.bottomUpM f
    let r ← r.bottomUpM f
    f (binary op l r c)
  | unary op e c => do
    let e ← e.bottomUpM f
    f (unary op e c)
  | assign op t v c => do
    let t ← t.bottomUpM f
    let v ← v.bottomUpM f
    f (assign op t v c)
  | ternary p t e c => do
    let p ← p.bottomUpM f
    let t ← t.bottomUpM f
    let e ← e.bottomUpM f
    f (ternary p t e c)
  | call callee args c => do
    let args ← bottomUpListM f args
    f (call callee args c)
  | cast type e c => do
    let e ← e.bottomUpM f
    f (cast type e c)
  | index a i c => do
    let a ← a.bottomUpM f
    let i ← i.bottomUpM f
    f (index a i c)
  | initList items c => do
    let items ← bottomUpListM f items
    f (initList items c)
  | comma items c => do
    let items ← bottomUpListM f items
    f (comma items c)

/-- Apply `f` to every expression of a list, children before parents. -/
def bottomUpListM (f : Expr → m Expr) : List Expr → m (List Expr)
  | [] => pure []
  | e :: rest => do
    let e ← e.bottomUpM f
    let rest ← bottomUpListM f rest
    pure (e :: rest)

end

end Expr

/-- Apply `f` to an expression that may be absent. -/
def mapOptionM (f : Expr → m Expr) : Option Expr → m (Option Expr)
  | none => pure none
  | some e => do
    let e ← f e
    pure (some e)

/-- Apply `f` to the size of an array declarator. -/
def Declarator.mapSizeM {δ : Type} (f : Expr → m Expr) : Declarator δ → m (Declarator δ)
  | .array item size c => do
    let size ← mapOptionM f size
    pure (.array item size c)
  | .element type => pure (.element type)
  | .function params result c => pure (.function params result c)

/-- Apply `f` to the array size of a declaration and then to its initializer. -/
def Decl.mapExprsM (f : Expr → m Expr) (d : Decl) : m Decl := do
  let type ← d.type.mapSizeM f
  let init ← mapOptionM f d.init
  pure { d with type, init }

/-- Apply `f` to the expressions of declarations in order. -/
def Decl.mapExprsListM (f : Expr → m Expr) : List Decl → m (List Decl)
  | [] => pure []
  | d :: rest => do
    let d ← d.mapExprsM f
    let rest ← Decl.mapExprsListM f rest
    pure (d :: rest)

/-- Apply `f` to the expressions of an initializer clause. -/
def ForInit.mapExprsM (f : Expr → m Expr) : Option ForInit → m (Option ForInit)
  | none => pure none
  | some (.decls ds) => do
    let ds ← Decl.mapExprsListM f ds
    pure (some (.decls ds))
  | some (.expr e) => do
    let e ← f e
    pure (some (.expr e))

namespace Stmt

mutual

/-- Apply `f` to the outermost expressions of a statement in order. -/
def mapExprsM (f : Expr → m Expr) : Stmt → m Stmt
  | decl d c => do
    let d ← d.mapExprsM f
    pure (decl d c)
  | block items b c => do
    let items ← mapExprsListM f items
    pure (block items b c)
  | expr e c => do
    let e ← f e
    pure (expr e c)
  | ifThen p t c => do
    let p ← f p
    let t ← t.mapExprsM f
    pure (ifThen p t c)
  | ifElse p t e c => do
    let p ← f p
    let t ← t.mapExprsM f
    let e ← e.mapExprsM f
    pure (ifElse p t e c)
  | forLoop init cond next body c => do
    let init ← ForInit.mapExprsM f init
    let cond ← mapOptionM f cond
    let next ← mapOptionM f next
    let body ← body.mapExprsM f
    pure (forLoop init cond next body c)
  | whileLoop p body c => do
    let p ← f p
    let body ← body.mapExprsM f
    pure (whileLoop p body c)
  | doWhile p body c => do
    let p ← f p
    let body ← body.mapExprsM f
    pure (doWhile p body c)
  | ret v c => do
    let v ← mapOptionM f v
    pure (ret v c)
  | brk c => pure (brk c)
  | cont c => pure (cont c)
  | goto l c => pure (goto l c)
  | label n s c => do
    let s ← s.mapExprsM f
    pure (label n s c)
  | empty c => pure (empty c)

/-- Apply `f` to the outermost expressions of a list of statements. -/
def mapExprsListM (f : Expr → m Expr) : List Stmt → m (List Stmt)
  | [] => pure []
  | s :: rest => do
    let s ← s.mapExprsM f
    let rest ← mapExprsListM f rest
    pure (s :: rest)

end

mutual

/-- Apply `f` to every block inside a statement, innermost first. -/
def mapBlocksM (f : Block → m Block) : Stmt → m Stmt
  | block items b c => do
    let items ← mapBlocksListM f items
    let result ← f ⟨items, b⟩
    pure (block result.items result.coord c)
  | ifThen p t c => do
    let t ← t.mapBlocksM f
    pure (ifThen p t c)
  | ifElse p t e c => do
    let t ← t.mapBlocksM f
    let e ← e.mapBlocksM f
    pure (ifElse p t e c)
  | forLoop init cond next body c => do
    let body ← body.mapBlocksM f
    pure (forLoop init cond next body c)
  | whileLoop p body c => do
    let body ← body.mapBlocksM f
    pure (whileLoop p body c)
  | doWhile p body c => do
    let body ← body.mapBlocksM f
    pure (doWhile p body c)
  | label n s c => do
    let s ← s.mapBlocksM f
    pure (label n s c)
  | decl d c => pure (decl d c)
  | expr e c => pure (expr e c)
  | ret v c => pure (ret v c)
  | brk c => pure (brk c)
  | cont c => pure (cont c)
  | goto l c => pure (goto l c)
  | empty c => pure (empty c)

/-- Apply `f` to every block inside a list of statements, innermost first. -/
def mapBlocksListM (f : Block → m Block) : List Stmt → m (List Stmt)
  | [] => pure []
  | s :: rest => do
    let s ← s.mapBlocksM f
    let rest ← mapBlocksListM f rest
    pure (s :: rest)

end

end Stmt

namespace Block

/-- Apply `f` to the outermost expressions of a block in order. -/
def mapExprsM (f : Expr → m Expr) (b : Block) : m Block := do
  let items ← Stmt.mapExprsListM f b.items
  pure ⟨items, b.coord⟩

/-- Apply `f` to every expression of a block, children before parents. -/
def bottomUpM (f : Expr → m Expr) (b : Block) : m Block :=
  b.mapExprsM (Expr.bottomUpM f)

/-- Apply `f` to the block and every block inside it, innermost first. -/
def mapBlocksM (f : Block → m Block) (b : Block) : m Block := do
  let items ← Stmt.mapBlocksListM f b.items
  f ⟨items, b.coord⟩

end Block

/-- Apply `f` to every expression of a declaration, children before parents. -/
def Decl.bottomUpM (f : Expr → m Expr) (d : Decl) : m Decl :=
  d.mapExprsM (Expr.bottomUpM f)

namespace Item

/-- Apply `f` to the outermost expressions of an item. -/
def mapExprsM (f : Expr → m Expr) : Item → m Item
  | decl d => do
    let d ← d.mapExprsM f
    pure (decl d)
  | func g => do
    let body ← g.body.mapExprsM f
    pure (func { g with body })

/-- Apply `f` to the body of a function definition. -/
def mapBodyM (f : Block → m Block) : Item → m Item
  | decl d => pure (decl d)
  | func g => do
    let body ← f g.body
    pure (func { g with body })

end Item

/-- Apply `f` to the items in order. -/
def SourceUnit.mapItemsM (f : Item → m Item) (u : SourceUnit) : m SourceUnit := do
  let items ← u.items.mapM f
  pure { u with items }

end Maps

/-! ### Counting changes -/

/-- A value and the number of changes that led to it. -/
structure Counted (α : Type) where
  value : α
  count : Nat

namespace Counted

instance : Monad Counted where
  pure a := ⟨a, 0⟩
  bind x f :=
    let y := f x.value
    ⟨y.value, x.count + y.count⟩

@[simp] theorem value_pure {α : Type} (a : α) : (pure a : Counted α).value = a := rfl

@[simp] theorem value_bind {α β : Type} (x : Counted α) (f : α → Counted β) :
    (x >>= f).value = (f x.value).value := rfl

/-- A value reached by one change. -/
def change {α : Type} (a : α) : Counted α :=
  ⟨a, 1⟩

/-- The replacement that `f` gives, counted as a change, or else the value itself. -/
def replace {α : Type} (f : α → Option α) (a : α) : Counted α :=
  match f a with
  | some b => change b
  | none => pure a

end Counted

end MathKernel
