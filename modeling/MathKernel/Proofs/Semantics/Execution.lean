import MathKernel.Normalize.Coercion
import MathKernel.Proofs.Semantics.Evaluation

/-!
# Execution of function bodies

A body is first read as code: its statements with the expressions replaced by what they compute.
Names are resolved on the way, so that every declaration has a place of its own. Code is then run
by a machine that holds the tasks still to be done; a jump replaces them by those that follow the
label.

## Main definitions

* `Code`, `Stmt.code` — the code of a statement
* `Task.step`, `Task.run` — the machine
* `FuncDef.run` — the run of a function from a memory that holds its arguments
-/

namespace MathKernel

/-! ### Declarations -/

/-- The codes of the characters of a string literal. -/
def textCodes : List Char → List Nat
  | [] => []
  | '"' :: rest => textCodes rest
  | '\\' :: c :: rest => (Literal.escapeCode? c).getD c.toNat :: textCodes rest
  | c :: rest => c.toNat :: textCodes rest

namespace Decl

variable (rules : Rules) (calls : Calls) (ctx : Context)

/-- Put the value of an initializer into a cell; braces around it do nothing. -/
def storeInit (c : Cell) : Expr → Action Unit
  | .initList [e] _ => storeInit c e
  | e => do
    let v ← e.eval rules calls ctx
    let _ ← Action.store rules c v
    pure ()

/-- Put the values of an initializer list into the elements of an array. -/
def storeItems (b : Binding) (i : Nat) : List Expr → Action Unit
  | [] => pure ()
  | e :: rest => do
    storeInit rules calls ctx { b.cell with index := i } e
    storeItems b (i + 1) rest

/-- Put codes into the elements of an array. -/
def storeCodes (b : Binding) (i : Nat) : List Nat → Action Unit
  | [] => pure ()
  | code :: rest => do
    Action.write { b.cell with index := i } (.int code)
    storeCodes b (i + 1) rest

/-- Give a variable its first value. Without an initializer it has none, unless it is static. -/
def runInit (d : Decl) (b : Binding) : Action Unit :=
  match d.init with
  | none => if d.isStatic then .zero b.place else .erase b.place
  | some (.initList items c) =>
    if b.isArray then do
      Action.zero b.place
      storeItems rules calls ctx b 0 items
    else storeInit rules calls ctx b.cell (.initList items c)
  | some e =>
    if b.isArray then
      match e.text? with
      | some text => do
        Action.zero b.place
        storeCodes b 0 (textCodes text.toList)
      | none => .stuck
    else storeInit rules calls ctx b.cell e

/-- Evaluate the size of an array. -/
def evalSize (d : Decl) : Action Unit :=
  match d.size? with
  | none => pure ()
  | some e => do
    let v ← e.eval rules calls ctx
    let _ ← Action.ofOption (rules.expect? .int v)
    pure ()

/-- Run a declaration. Its initializer is in the context that it makes, its size is not. A static
variable keeps its value from one run to the next. -/
def run (d : Decl) : Action Unit :=
  match d.name.bind (ctx.declare d).binding? with
  | none => pure ()
  | some b =>
    if d.isFunction || d.isExternal then pure ()
    else do
      evalSize rules calls ctx d
      match d.isStatic, b.place with
      | true, .slot index => do
        let guard : Cell := ⟨.guard index, .bool, 0⟩
        if ← Action.isSet guard then pure ()
        else do
          runInit rules calls (ctx.declare d) d b
          Action.write guard (.bool true)
      | _, _ => runInit rules calls (ctx.declare d) d b

/-- Run declarations in order. -/
def runList (ctx : Context) : List Decl → Action Unit
  | [] => pure ()
  | d :: rest => do
    d.run rules calls ctx
    runList (ctx.declare d) rest

end Decl

/-! ### Code -/

/-- Statements with the computations of their expressions. -/
inductive Code where
  | act (run : Action Unit)
  | block (items : List Code)
  | branch (test : Action Bool) (onTrue onFalse : Code)
  | loop (init : Action Unit) (test : Action Bool) (next : Action Unit) (body : Code)
  | loopLast (body : Code) (test : Action Bool)
  | ret (value : Action (Option Scalar))
  | brk
  | cont
  | goto (label : String)
  | label (name : String) (code : Code)

/-- The context after an initializer clause. -/
def ForInit.after (ctx : Context) : Option ForInit → Context
  | some (.decls ds) => ds.foldl Context.declare ctx
  | _ => ctx

/-- Run an initializer clause. -/
def ForInit.run (rules : Rules) (calls : Calls) (ctx : Context) : Option ForInit → Action Unit
  | none => pure ()
  | some (.decls ds) => Decl.runList rules calls ctx ds
  | some (.expr e) => do
    let _ ← e.eval rules calls ctx
    pure ()

namespace Stmt

mutual

/-- The context after a statement. A declaration is known to the end of its block. -/
def after : Context → Stmt → Context
  | ctx, decl d _ => ctx.declare d
  | ctx, block items _ _ => ctx.leave (afterList ctx items)
  | ctx, ifThen _ t _ => t.after ctx
  | ctx, ifElse _ t e _ => e.after (t.after ctx)
  | ctx, forLoop init _ _ body _ => ctx.leave (body.after (ForInit.after ctx init))
  | ctx, whileLoop _ body _ => body.after ctx
  | ctx, doWhile _ body _ => body.after ctx
  | ctx, label _ s _ => s.after ctx
  | ctx, expr .. | ctx, ret .. | ctx, brk _ | ctx, cont _ | ctx, goto .. | ctx, empty _ => ctx

/-- The context after statements. -/
def afterList : Context → List Stmt → Context
  | ctx, [] => ctx
  | ctx, s :: rest => afterList (s.after ctx) rest

end

variable (rules : Rules) (calls : Calls) (result : ScalarType)

/-- The value of a return, in the type of the function's result. -/
def evalReturn (ctx : Context) : Option Expr → Action (Option Scalar)
  | none => pure none
  | some e => do
    let v ← e.eval rules calls ctx
    let v ← Action.ofOption (rules.expect? result v)
    pure (some v)

/-- The test of a `for` loop; without a condition it holds. -/
def evalForTest (ctx : Context) : Option Expr → Action Bool
  | none => pure true
  | some e => e.evalTest rules calls ctx

/-- The step of a `for` loop. -/
def evalNext (ctx : Context) : Option Expr → Action Unit
  | none => pure ()
  | some e => do
    let _ ← e.eval rules calls ctx
    pure ()

mutual

/-- The code of a statement. -/
def code : Context → Stmt → Code
  | ctx, decl d _ => .act (d.run rules calls ctx)
  | ctx, block items _ _ => .block (codeList ctx items)
  | ctx, expr e _ => .act (evalNext rules calls ctx (some e))
  | ctx, ifThen p t _ => .branch (p.evalTest rules calls ctx) (t.code ctx) (.act (pure ()))
  | ctx, ifElse p t e _ =>
    .branch (p.evalTest rules calls ctx) (t.code ctx) (e.code (t.after ctx))
  | ctx, forLoop init cond next body _ =>
    let inner := ForInit.after ctx init
    .loop (ForInit.run rules calls ctx init) (evalForTest rules calls inner cond)
      (evalNext rules calls inner next) (body.code inner)
  | ctx, whileLoop p body _ =>
    .loop (pure ()) (p.evalTest rules calls ctx) (pure ()) (body.code ctx)
  | ctx, doWhile p body _ => .loopLast (body.code ctx) (p.evalTest rules calls ctx)
  | ctx, ret value _ => .ret (evalReturn rules calls result ctx value)
  | _, brk _ => .brk
  | _, cont _ => .cont
  | _, goto l _ => .goto l
  | ctx, label n s _ => .label n (s.code ctx)
  | _, empty _ => .act (pure ())

/-- The code of statements in order. -/
def codeList : Context → List Stmt → List Code
  | _, [] => []
  | ctx, s :: rest => s.code ctx :: codeList (s.after ctx) rest

end

end Stmt

/-! ### The machine -/

/-- What is still to be done: code to run, or a loop to go on with after its body. -/
inductive Task where
  | code (code : Code)
  | turn (test : Action Bool) (next : Action Unit) (body : Code)
  | turnLast (body : Code) (test : Action Bool)

namespace Task

/-- Whether the task goes on with a loop. -/
def isLoop : Task → Bool
  | code _ => false
  | turn .. | turnLast .. => true

mutual

/-- The tasks from a label in code that is followed by other tasks. -/
def fromLabel (l : String) (rest : List Task) : Code → Option (List Task)
  | .block items => fromLabelList l rest items
  | .branch _ t e => (fromLabel l rest t).orElse fun _ => fromLabel l rest e
  | .loop _ test next body => fromLabel l (turn test next body :: rest) body
  | .loopLast body test => fromLabel l (turnLast body test :: rest) body
  | .label n c => if n = l then some (code c :: rest) else fromLabel l rest c
  | .act _ | .ret _ | .brk | .cont | .goto _ => none

/-- The tasks from a label in one of the items of a block. -/
def fromLabelList (l : String) (rest : List Task) : List Code → Option (List Task)
  | [] => none
  | c :: items =>
    (fromLabel l (items.map code ++ rest) c).orElse fun _ => fromLabelList l rest items

end

/-- One step of a body: the tasks that remain, or the returned value at the end. -/
def step (body : Code) : List Task → Action (Option Scalar ⊕ List Task)
  | [] => pure (.inl none)
  | code (.act run) :: rest => do
    run
    pure (.inr rest)
  | code (.block items) :: rest => pure (.inr (items.map code ++ rest))
  | code (.branch test t e) :: rest => do
    if ← test then pure (.inr (code t :: rest)) else pure (.inr (code e :: rest))
  | code (.loop init test next c) :: rest => do
    init
    if ← test then pure (.inr (code c :: turn test next c :: rest)) else pure (.inr rest)
  | code (.loopLast c test) :: rest => pure (.inr (code c :: turnLast c test :: rest))
  | turn test next c :: rest => do
    next
    if ← test then pure (.inr (code c :: turn test next c :: rest)) else pure (.inr rest)
  | turnLast c test :: rest => do
    if ← test then pure (.inr (code c :: turnLast c test :: rest)) else pure (.inr rest)
  | code (.ret value) :: _ => do
    let v ← value
    pure (.inl v)
  | code .brk :: rest => pure (.inr ((rest.dropWhile (!·.isLoop)).drop 1))
  | code .cont :: rest => pure (.inr (rest.dropWhile (!·.isLoop)))
  | code (.goto l) :: _ =>
    match fromLabel l [] body with
    | some tasks => pure (.inr tasks)
    | none => .stuck
  | code (.label _ c) :: rest => pure (.inr (code c :: rest))

/-- At most so many steps of a body. -/
def run (body : Code) : Nat → List Task → Action (Option Scalar)
  | 0, _ => .stuck
  | fuel + 1, tasks => do
    match ← step body tasks with
    | .inl v => pure v
    | .inr tasks => run body fuel tasks

end Task

/-! ### Functions -/

/-- The names of a file. -/
def SourceUnit.context (u : SourceUnit) : Context where
  functions := (TypeEnv.ofUnit u).functions
  vars := (u.items.map Item.toDecl).reverse.filterMap fun d =>
    if d.isFunction then none
    else d.name.map fun name => (name, ⟨d.scalar, .global name, d.isArray⟩)
  slots := 0

/-- Declare a parameter; that of an array is given a place. -/
def Context.declareParam (arrays : String → Place) (ctx : Context) (d : Decl) : Context :=
  match d.name with
  | none => ctx
  | some name =>
    ctx.bind name ⟨d.scalar, if d.isArray then arrays name else .param name, d.isArray⟩

namespace FuncDef

/-- The names of a body: the parameters and what the file declares. -/
def context (u : SourceUnit) (arrays : String → Place) (f : FuncDef) : Context :=
  f.params.foldl (Context.declareParam arrays) u.context

/-- The code of a function. -/
def bodyCode (rules : Rules) (calls : Calls) (u : SourceUnit) (arrays : String → Place)
    (f : FuncDef) : Code :=
  .block (Stmt.codeList rules calls f.returnType (f.context u arrays) f.body.items)

/-- Run a function of a unit for so many steps. Its arguments are in the cells of the parameters,
its arrays at the given places. -/
def run (rules : Rules) (calls : Calls) (u : SourceUnit) (arrays : String → Place) (f : FuncDef)
    (fuel : Nat) : Action (Option Scalar) :=
  Task.run (f.bodyCode rules calls u arrays) fuel [.code (f.bodyCode rules calls u arrays)]

end FuncDef

end MathKernel
