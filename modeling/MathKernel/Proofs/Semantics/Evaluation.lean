import MathKernel.Normalize.Typing
import MathKernel.Proofs.Semantics.Scalars
import MathKernel.Syntax.Traversal

/-!
# Evaluation of expressions

Expressions are evaluated from left to right over a memory of typed cells, by given rules. A
variable is a cell, or a row of cells for an array, at a place that its declaration fixes. An
evaluation may get stuck: on a cell that holds nothing, on a division by zero, on operands that
the rules do not take. What called functions do is left open, apart from the conversions and the
integer remainder.

A compound assignment finds its target and reads it before its value is evaluated.

## Main definitions

* `Memory`, `Action` — typed cells, and computations on them that may get stuck
* `Context` — what is known of the names in scope
* `Expr.ctype` — the type of an expression in C
* `Expr.eval` — the evaluation of an expression
-/

namespace MathKernel

/-! ### Memory -/

/-- Where a variable is kept. -/
inductive Place where
  | global (name : String)
  | param (name : String)
  /-- The place of a declaration in a body, numbered through the body. -/
  | slot (index : Nat)
  /-- The mark that a static variable has its first value. -/
  | guard (index : Nat)
  /-- A function that is declared in a body, which holds no value. -/
  | function (name : String)
  deriving DecidableEq

/-- A variable or an element of an array. -/
structure Cell where
  place : Place
  type : ScalarType
  index : Int
  deriving DecidableEq

/-- What the cells hold, each a value of its own type or nothing. -/
def Memory := (c : Cell) → Option { v : Scalar // v.type = c.type }

/-- A computation on memory that may get stuck. -/
abbrev Action (α : Type) := StateT Memory Option α

namespace Action

/-- The computation that gets stuck. -/
def stuck {α : Type} : Action α :=
  fun _ => none

/-- A result that may be missing. -/
def ofOption {α : Type} (a : Option α) : Action α :=
  fun m => a.map (·, m)

/-- The value of a cell. -/
def read (c : Cell) : Action Scalar :=
  fun m => (m c).map fun v => (v.1, m)

/-- Put a value of its type into a cell. -/
def write (c : Cell) (v : Scalar) : Action Unit :=
  fun m =>
    if h : v.type = c.type then
      some ((), fun c' => if h' : c' = c then some ⟨v, h' ▸ h⟩ else m c')
    else none

/-- Leave nothing in the cells of a place. -/
def erase (place : Place) : Action Unit :=
  fun m => some ((), fun c => if c.place = place then none else m c)

/-- Put zero into the cells of a place. -/
def zero (place : Place) : Action Unit :=
  fun m => some ((), fun c =>
    if c.place = place then some ⟨.zero c.type, Scalar.type_zero c.type⟩ else m c)

/-- Whether a cell holds a value. -/
def isSet (c : Cell) : Action Bool :=
  fun m => some ((m c).isSome, m)

/-- Put a value into a cell, in the type of the cell. -/
def store (rules : Rules) (c : Cell) (v : Scalar) : Action Scalar := do
  let w ← ofOption (rules.expect? c.type v)
  write c w
  pure w

end Action

/-! ### Names -/

/-- What a name of a variable stands for. -/
structure Binding where
  type : ScalarType
  place : Place
  isArray : Bool

/-- The first cell of a variable. -/
def Binding.cell (b : Binding) : Cell :=
  ⟨b.place, b.type, 0⟩

/-- Whether the name is that of a function. -/
def Binding.isFunction (b : Binding) : Bool :=
  match b.place with
  | .function _ => true
  | _ => false

/-- What is known of the names in scope; the first entry for a name counts. -/
structure Context where
  functions : List (String × Signature)
  vars : List (String × Binding)
  /-- The number of places taken in the body so far. -/
  slots : Nat

namespace Context

/-- The signature of a function. -/
def signature? (ctx : Context) (name : String) : Option Signature :=
  ctx.functions.lookup name

/-- The binding of a variable. -/
def binding? (ctx : Context) (name : String) : Option Binding :=
  ctx.vars.lookup name

/-- The cell of a variable that is no array. -/
def cell? (ctx : Context) (name : String) : Option Cell :=
  (ctx.binding? name).bind fun b => if b.isArray || b.isFunction then none else some b.cell

/-- The array that an expression names. -/
def array? (ctx : Context) : Expr → Option Binding
  | .id name _ => (ctx.binding? name).filter (·.isArray)
  | _ => none

/-- Bind a name. -/
def bind (ctx : Context) (name : String) (b : Binding) : Context :=
  { ctx with vars := (name, b) :: ctx.vars }

/-- Declare a function inside a body, which hides a variable of its name. One that is declared
again with the same types stays as it is. -/
def declareFunction (ctx : Context) (name : String) (s : Signature) : Context where
  functions := if ctx.signature? name = some s then ctx.functions else (name, s) :: ctx.functions
  vars := (name, ⟨s.result, .function name, false⟩) :: ctx.vars
  slots := ctx.slots

/-- Declare inside a body. An external name is that of the file; every other variable has a place
of its own. -/
def declare (ctx : Context) (d : Decl) : Context :=
  match d.name with
  | none => ctx
  | some name =>
    match Signature.ofDecl? d with
    | some s => ctx.declareFunction name s
    | none =>
      if d.isExternal then ctx.bind name ⟨d.scalar, .global name, d.isArray⟩
      else { ctx.bind name ⟨d.scalar, .slot ctx.slots, d.isArray⟩ with slots := ctx.slots + 1 }

/-- The names of `ctx` after code that took the places of `inner`. -/
def leave (ctx inner : Context) : Context :=
  { ctx with slots := inner.slots }

/-- The types of the names in scope. -/
def typeEnv (ctx : Context) : TypeEnv where
  functions := ctx.functions
  vars := ctx.vars.map fun (name, b) => (name, b.type)

end Context

/-! ### Types in C -/

/-- The type of an operator's result in C. -/
def BinaryOp.ctype (op : BinaryOp) (left right : ScalarType) : ScalarType :=
  if op.isLogical || op.isComparison || op.isBitwise then .int
  else if left = .float ∨ right = .float then .float
  else .int

/-- The type of an operator's result in C. -/
def UnaryOp.ctype (op : UnaryOp) (operand : ScalarType) : ScalarType :=
  match op with
  | .not | .bitNot => .int
  | .neg | .plus => if operand = .bool then .int else operand
  | .preInc | .preDec | .postInc | .postDec => operand

namespace Expr

mutual

/-- The type of an expression in C, where truth values of operators are integers. -/
def ctype (ctx : Context) : Expr → ScalarType
  | id name _ => ((ctx.binding? name).map Binding.type).getD .void
  | literal value _ => value.kind.scalar
  | binary op l r _ => op.ctype (l.ctype ctx) (r.ctype ctx)
  | unary op e _ => op.ctype (e.ctype ctx)
  | assign _ target _ _ => target.ctype ctx
  | ternary _ t e _ =>
    if t.ctype ctx = .void then .void
    else if t.ctype ctx = .float ∨ e.ctype ctx = .float then .float
    else .int
  | call callee _ _ => ((ctx.signature? callee).map Signature.result).getD .void
  | cast type _ _ => type
  | index array _ _ => array.ctype ctx
  | initList _ _ => .void
  | comma items _ => lastCtype ctx items

/-- The type of the last expression of a list in C. -/
def lastCtype (ctx : Context) : List Expr → ScalarType
  | [] => .void
  | [e] => e.ctype ctx
  | _ :: rest => lastCtype ctx rest

end

/-- The text of a string literal. -/
def text? : Expr → Option String
  | literal ⟨.string, text⟩ _ => some text
  | _ => none

end Expr

/-! ### Calls -/

/-- What is passed to a function. -/
inductive Argument where
  | scalar (v : Scalar)
  | array (place : Place) (type : ScalarType)
  | text (text : String)
  deriving DecidableEq

/-- What called functions do. -/
abbrev Calls := String → List Argument → Action Scalar

/-- An argument for a parameter of the given type, if it has one. -/
def Rules.argument? (rules : Rules) (param : Option ScalarType) (v : Scalar) : Option Scalar :=
  match param with
  | some t => rules.expect? t v
  | none => some (rules.promote v)

/-- The remainder of integers toward zero. -/
def remainderOf? : List Argument → Option Scalar
  | [.scalar (.int a), .scalar (.int b)] => if b = 0 then none else some (.int (a.tmod b))
  | _ => none

/-- Apply a function. The names of the types convert, and the remainder is computed; the result
of any other function must have the declared type. -/
def Context.apply (ctx : Context) (calls : Calls) (callee : String) (args : List Argument) :
    Action Scalar :=
  match ScalarType.ofCName? callee with
  | some t =>
    match args with
    | [.scalar v] => pure (v.convert t)
    | _ => .stuck
  | none =>
    if callee = remainderFunction then .ofOption (remainderOf? args)
    else
      match ctx.signature? callee with
      | none => .stuck
      | some s => do
        let v ← calls callee args
        if v.type = s.result then pure v else .stuck

/-! ### Expressions -/

/-- The element of an array at a subscript. -/
def Binding.element (rules : Rules) (b : Binding) (subscript : Scalar) : Action Cell :=
  match rules.expect? .int subscript with
  | some (.int n) => pure ⟨b.place, b.type, n⟩
  | _ => .stuck

/-- The element that an indexed expression names. One of the two parts is the array, the other is
evaluated. -/
def Context.element (ctx : Context) (rules : Rules) (a i : Expr) (evalA evalI : Action Scalar) :
    Action Cell :=
  match ctx.array? a, ctx.array? i with
  | some b, _ => do b.element rules (← evalI)
  | none, some b => do b.element rules (← evalA)
  | none, none => .stuck

/-- What an expression passes to a parameter. Arrays and texts are passed as they are, other
expressions are evaluated. -/
def Context.argument (ctx : Context) (rules : Rules) (param : Option ScalarType) (e : Expr)
    (evalE : Action Scalar) : Action Argument :=
  match ctx.array? e, e.text? with
  | some b, _ => pure (.array b.place b.type)
  | none, some text => pure (.text text)
  | none, none => do
    let v ← evalE
    let v ← .ofOption (rules.argument? param v)
    pure (.scalar v)

namespace Expr

variable (rules : Rules) (calls : Calls) (ctx : Context)

mutual

/-- Evaluate an expression. -/
def eval : Expr → Action Scalar
  | id name _ => do .read (← .ofOption (ctx.cell? name))
  | literal value _ => .ofOption value.scalar?
  | binary op l r _ => do
    let v ← l.eval
    if op.isLogical then do
      let b ← .ofOption (rules.condition? v)
      -- The first operand may decide the connective by itself.
      if b = (op == .or) then pure (rules.truth b)
      else do
        let w ← r.eval
        let b ← .ofOption (rules.condition? w)
        pure (rules.truth b)
    else do
      let w ← r.eval
      .ofOption (rules.binary op v w)
  | unary op e _ =>
    if op.isMutating then do
      let cell ← e.evalCell
      let old ← .read cell
      let new ← .ofOption (rules.step op old)
      let new ← .store rules cell new
      pure (if op.isTrailing then old else new)
    else do
      let v ← e.eval
      .ofOption (rules.unary op v)
  | assign op target value _ => do
    let cell ← target.evalCell
    match op.binary? with
    | none => do
      let v ← value.eval
      .store rules cell v
    | some b => do
      let old ← .read cell
      let v ← value.eval
      let new ← .ofOption (rules.binary b old v)
      .store rules cell new
  | ternary p t e _ => do
    let v ← p.eval
    let b ← .ofOption (rules.condition? v)
    let w ← if b then t.eval else e.eval
    pure (rules.join (t.ctype ctx) (e.ctype ctx) w)
  | call callee args _ => do
    let args ← evalArgs (ctx.signature? callee) 0 args
    ctx.apply calls callee args
  | cast type e _ => do
    let v ← e.eval
    pure (v.convert type)
  | index a i _ => do .read (← ctx.element rules a i a.eval i.eval)
  | initList _ _ => .stuck
  | comma items _ => evalLast items

/-- Find the cell that an expression names. -/
def evalCell : Expr → Action Cell
  | id name _ => .ofOption (ctx.cell? name)
  | index a i _ => ctx.element rules a i a.eval i.eval
  | _ => .stuck

/-- Evaluate arguments from a position on, each for its parameter. -/
def evalArgs (signature : Option Signature) (i : Nat) : List Expr → Action (List Argument)
  | [] => pure []
  | e :: rest => do
    let arg ← ctx.argument rules (signature.bind (·.param? i)) e e.eval
    let rest ← evalArgs signature (i + 1) rest
    pure (arg :: rest)

/-- Evaluate the expressions of a list and keep the last value. -/
def evalLast : List Expr → Action Scalar
  | [] => .stuck
  | [e] => e.eval
  | e :: rest => do
    let _ ← e.eval
    evalLast rest

end

/-- Evaluate a condition. -/
def evalTest (e : Expr) : Action Bool := do
  let v ← e.eval rules calls ctx
  .ofOption (rules.condition? v)

end Expr

end MathKernel
