import Mathlib.Data.List.Lattice
import Mathlib.Logic.Function.Basic
import MathKernel.Normalize.Loops
import MathKernel.Proofs.Semantics.Scalars
import MathKernel.Proofs.Semantics.Traces
import MathKernel.Proofs.Syntax.References

/-!
# Runs of statements under any interpretation

What conditions, simple statements and declarations do is left open: an interpretation gives for
each of them a change of the store. It sees and changes only the names that occur in them, apart
from the world, which holds all that is no local of the function. What is fixed is the flow of
control and block scoping: a declaration hides a name for the rest of its block, every branch and
loop body is a scope of its own, and so is a `for` loop with its clauses.

A run is bounded by the number of turns that a loop may take each time it is entered, for `for`
loops and for the other loops apart. More turns than needed change nothing, so a run that ends
within some bound is the run.

## Main definitions

* `Store`, `Step` — what code can change, and how it changes it
* `Interpretation` — the meaning of conditions, simple statements and declarations
* `Stmt.exec` — the run of a statement, with bounds on the turns of its loops
* `Stmt.Ends`, `Stmt.EndsWithin` — how a run ends
* `Step.Follows` — one step does what another does, whatever some names stand for
* `Interpretation.scalars` — variables that are no arrays, by the rules of C

## Main results

* `Stmt.exec_follows` — a run neither reads nor changes names that do not occur in the statement,
  and larger bounds do not change it
* `Stmt.Ends.unique` — a statement ends in one way
-/

namespace MathKernel

variable {V W α β : Type}

/-! ### Stores -/

/-- What the names of locals stand for, and the rest of the world. -/
@[ext]
structure Store (V W : Type) where
  locals : String → Option V
  world : W

namespace Store

/-- Let a name stand for a value, or for no local. -/
def set (x : String) (v : Option V) (σ : Store V W) : Store V W :=
  { σ with locals := fun y => if y = x then v else σ.locals y }

/-- The store that shows only the given names. -/
def only (names : List String) (σ : Store V W) : Store V W :=
  { σ with locals := fun x => if x ∈ names then σ.locals x else none }

/-- The store after a change of the given names, with the others as before. -/
def frame (names : List String) (before after : Store V W) : Store V W :=
  { after with locals := fun x => if x ∈ names then after.locals x else before.locals x }

/-- The store in which the given names stand for something else. -/
def patch (names : List String) (μ : String → Option V) (σ : Store V W) : Store V W :=
  { σ with locals := fun x => if x ∈ names then μ x else σ.locals x }

variable {C names : List String} {μ : String → Option V} {σ τ : Store V W} {x : String}
  {v : Option V}

@[simp] theorem locals_set_self : (σ.set x v).locals x = v :=
  if_pos rfl

@[simp] theorem patch_locals_self : σ.patch C σ.locals = σ := by
  ext x a
  · simp [patch]
  · rfl

@[simp] theorem patch_nil : σ.patch [] μ = σ := by
  ext x a
  · simp [patch]
  · rfl

theorem locals_patch_of_mem (h : x ∈ C) : (σ.patch C μ).locals x = μ x :=
  if_pos h

theorem locals_patch_of_notMem (h : x ∉ C) : (σ.patch C μ).locals x = σ.locals x :=
  if_neg h

/-- Other names may be set before or after. -/
theorem set_patch (h : x ∉ C) : (σ.patch C μ).set x v = (σ.set x v).patch C μ := by
  ext y a
  · by_cases hy : y = x
    · simp [set, patch, hy, h]
    · simp [set, patch, hy]
  · rfl

/-- To set one of the given names is to choose what it stands for. -/
theorem set_patch_of_mem (h : x ∈ C) :
    (σ.patch C μ).set x v = σ.patch C (Function.update μ x v) := by
  ext y a
  · by_cases hy : y = x
    · simp [set, patch, hy, h]
    · simp [set, patch, hy]
  · rfl

theorem only_patch (h : C.Disjoint names) : (σ.patch C μ).only names = σ.only names := by
  ext x a
  · by_cases hx : x ∈ names
    · have hC : x ∉ C := fun hC => h hC hx
      simp [only, patch, hx, hC]
    · simp [only, hx]
  · rfl

theorem frame_patch (h : C.Disjoint names) :
    (σ.patch C μ).frame names τ = (σ.frame names τ).patch C μ := by
  ext x a
  · by_cases hx : x ∈ names
    · have hC : x ∉ C := fun hC => h hC hx
      simp [frame, patch, hx, hC]
    · simp [frame, patch, hx]
  · rfl

/-- A store that was only looked at is the same afterwards. -/
@[simp] theorem frame_only : σ.frame names (σ.only names) = σ := by
  ext x a
  · by_cases hx : x ∈ names <;> simp [frame, only, hx]
  · rfl

theorem frame_set_only (h : x ∈ names) :
    σ.frame names ((σ.only names).set x v) = σ.set x v := by
  ext y a
  · by_cases hy : y = x
    · simp [frame, set, hy, h]
    · by_cases hn : y ∈ names <;> simp [frame, only, set, hy, hn]
  · rfl

end Store

/-! ### Steps -/

/-- A change of the store with a result, which may get stuck. -/
abbrev Step (V W α : Type) := StateT (Store V W) Option α

namespace Step

/-- Show a step only the given names, and let it change no others. -/
def framed (names : List String) (x : Step V W α) : Step V W α :=
  fun σ => (x (σ.only names)).map fun (a, τ) => (a, σ.frame names τ)

/-- Let a name stand for a value during a step, and for what it stood for afterwards. -/
def binding (x : String) (v : V) (rest : Step V W α) : Step V W α :=
  fun σ => (rest (σ.set x (some v))).map fun (a, τ) => (a, τ.set x (σ.locals x))

/-- Go on if the first part ends normally. -/
def andThen (first second : Step V W Ending) : Step V W Ending := do
  let o ← first
  if o = .done then second else pure o

/-- End the turn of a loop where the loop is to be repeated. -/
def catchContinue (body : Step V W Ending) : Step V W Ending := do
  let o ← body
  pure (if o = .continued then .done else o)

/-- One of two steps by a test. -/
def choose (test : Step V W Bool) (onTrue onFalse : Step V W Ending) : Step V W Ending := do
  let b ← test
  if b then onTrue else onFalse

/-- A turn of a loop that tests first. -/
def turn (test : Step V W Bool) (body next : Step V W Ending) : Step V W Ending :=
  choose test (body.catchContinue.andThen next) (pure .broke)

/-- A turn of a loop that tests last. -/
def turnLast (body : Step V W Ending) (test : Step V W Bool) : Step V W Ending :=
  body.catchContinue.andThen (choose test (pure .done) (pure .broke))

/-- Turn after turn, up to one that does not end normally; more turns than given get stuck. -/
def iterate (turn : Step V W Ending) : Nat → Step V W Ending
  | 0 => fun _ => none
  | n + 1 => do
    let o ← turn
    if o = .done then iterate turn n else pure o.leaveLoop

end Step

/-! ### Interpretations -/

/-- What conditions, simple statements and declarations do. The laws say what a loop counter and
the guard of a bounded loop do, as far as a counter goes. -/
structure Interpretation (V W : Type) where
  /-- Evaluate a condition. -/
  test : Expr → Step V W Bool
  /-- Perform an expression statement, a return, a `break`, a `continue`, a jump or an empty
  statement. -/
  perform : Stmt → Step V W Ending
  /-- Find what a declared name stands for. -/
  declare : Decl → Step V W V
  /-- The values of a loop counter. -/
  number : Nat → V
  test_not (e : Expr) : test (.unary .not e none) = (fun b => !b) <$> test e
  perform_brk : perform (.brk none) = pure .broke
  perform_empty (c : Coord) : perform (.empty c) = pure .done
  declare_counter (k : String) :
    declare (.ofScalar k .int (some (.int 0 none))) = pure (number 0)
  test_counter (k : String) (i : Nat) (σ : Store V W) : i ≤ iterationCap.toNat →
    σ.locals k = some (number i) →
    test (.binary .lt (.id k none) (.int iterationCap none) none) σ =
      some (decide (i < iterationCap.toNat), σ)
  perform_counter (k : String) (i : Nat) (σ : Store V W) : i < iterationCap.toNat →
    σ.locals k = some (number i) →
    perform (.expr (.unary .postInc (.id k none) none) none) σ =
      some (.done, σ.set k (some (number (i + 1))))

namespace Interpretation

variable (I : Interpretation V W)

/-- Evaluate a condition in a store of any names. -/
def check (e : Expr) : Step V W Bool :=
  .framed e.names (I.test e)

/-- Perform a simple statement in a store of any names. -/
def act (s : Stmt) : Step V W Ending :=
  .framed (s.ownExprs.flatMap Expr.names) (I.perform s)

/-- Declare a name for the rest of a block. -/
def declaring (d : Decl) (rest : Step V W α) : Step V W α := do
  let v ← Step.framed (d.rootExprs.flatMap Expr.names) (I.declare d)
  match d.name with
  | none => rest
  | some x => Step.binding x v rest

/-- Run a loop after its initializer clause, in the scope of the names declared there. -/
def afterInit : Option ForInit → Step V W Ending → Step V W Ending
  | none, loop => loop
  | some (.decls ds), loop => ds.foldr I.declaring loop
  | some (.expr e), loop => (I.act (.expr e none)).andThen loop

/-- The test of a `for` loop; without a condition it holds. -/
def forTest : Option Expr → Step V W Bool
  | none => pure true
  | some e => I.check e

/-- The step of a `for` loop. -/
def forNext : Option Expr → Step V W Ending
  | none => pure .done
  | some e => I.act (.expr e none)

end Interpretation

/-! ### Statements -/

namespace Stmt

section Exec

variable (I : Interpretation V W) (turns cap : Nat)

mutual

/-- Run a statement with at most `turns` turns of a `for` loop and at most `cap` turns of any other
loop each time it is entered. -/
def exec : Stmt → Step V W Ending
  | decl d _ => I.declaring d (pure .done)
  | block items _ _ => execList items
  | ifThen p t _ => .choose (I.check p) (exec t) (pure .done)
  | ifElse p t e _ => .choose (I.check p) (exec t) (exec e)
  | forLoop init cond next body _ =>
    I.afterInit init (.iterate (.turn (I.forTest cond) (exec body) (I.forNext next)) turns)
  | whileLoop p body _ => .iterate (.turn (I.check p) (exec body) (pure .done)) cap
  | doWhile p body _ => .iterate (.turnLast (exec body) (I.check p)) cap
  | label _ s _ => exec s
  | expr e c => I.act (expr e c)
  | ret v c => I.act (ret v c)
  | brk c => I.act (brk c)
  | cont c => I.act (cont c)
  | goto l c => I.act (goto l c)
  | empty c => I.act (empty c)

/-- Run the items of a block. A declaration is in force for the items after it. -/
def execList : List Stmt → Step V W Ending
  | [] => pure .done
  | s :: rest =>
    match s.declared? with
    | some d => I.declaring d (execList rest)
    | none => (exec s).andThen (execList rest)

end

end Exec

/-- A run of the statement ends, with enough turns for its loops. -/
def Ends (I : Interpretation V W) (s : Stmt) (σ : Store V W) (o : Ending) (τ : Store V W) : Prop :=
  ∃ n, s.exec I n n σ = some (o, τ)

/-- A run of the statement ends and no loop other than `for` takes more turns than given each time
it is entered. -/
def EndsWithin (I : Interpretation V W) (cap : Nat) (s : Stmt) (σ : Store V W) (o : Ending)
    (τ : Store V W) : Prop :=
  ∃ n, s.exec I n cap σ = some (o, τ)

end Stmt

/-! ### Steps that follow others -/

namespace Step

/-- The second step does what the first does, whatever the names in `C` stand for, and leaves
these alone. -/
def Follows (C : List String) (x y : Step V W α) : Prop :=
  ∀ μ σ a τ, x σ = some (a, τ) → y (σ.patch C μ) = some (a, τ.patch C μ)

variable {C : List String}

theorem bind_eq_some {x : Step V W α} {f : α → Step V W β} {σ τ : Store V W} {b : β} :
    (x >>= f) σ = some (b, τ) ↔ ∃ a υ, x σ = some (a, υ) ∧ f a υ = some (b, τ) := by
  change (x σ >>= fun p => f p.1 p.2) = _ ↔ _
  simp [bind, Option.bind_eq_some_iff]

namespace Follows

theorem pure (a : α) : Follows C (Pure.pure a : Step V W α) (Pure.pure a) := by
  intro μ σ b τ h
  cases h
  rfl

theorem bind {x y : Step V W α} {f g : α → Step V W β} (hx : Follows C x y)
    (hf : ∀ a, Follows C (f a) (g a)) : Follows C (x >>= f) (y >>= g) := by
  intro μ σ b τ h
  obtain ⟨a, υ, ha, hb⟩ := bind_eq_some.1 h
  exact bind_eq_some.2 ⟨a, υ.patch C μ, hx μ σ a υ ha, hf a μ υ b τ hb⟩

variable {first first' second second' : Step V W Ending} {test test' : Step V W Bool}

theorem andThen (hfirst : Follows C first first') (hsecond : Follows C second second') :
    Follows C (first.andThen second) (first'.andThen second') := by
  refine hfirst.bind fun o => ?_
  split
  · exact hsecond
  · exact .pure o

theorem catchContinue (h : Follows C first first') :
    Follows C first.catchContinue first'.catchContinue :=
  h.bind fun _ => .pure _

theorem choose (htest : Follows C test test') (hfirst : Follows C first first')
    (hsecond : Follows C second second') :
    Follows C (Step.choose test first second) (Step.choose test' first' second') := by
  refine htest.bind fun b => ?_
  cases b
  · exact hsecond
  · exact hfirst

theorem turn (htest : Follows C test test') (hbody : Follows C first first')
    (hnext : Follows C second second') :
    Follows C (Step.turn test first second) (Step.turn test' first' second') :=
  htest.choose (hbody.catchContinue.andThen hnext) (.pure _)

theorem turnLast (hbody : Follows C first first') (htest : Follows C test test') :
    Follows C (Step.turnLast first test) (Step.turnLast first' test') :=
  hbody.catchContinue.andThen (htest.choose (.pure _) (.pure _))

/-- A loop that may take more turns does the same. -/
theorem iterate (h : Follows C first first') {m n : Nat} (hmn : m ≤ n) :
    Follows C (first.iterate m) (first'.iterate n) := by
  induction m generalizing n with
  | zero =>
    intro μ σ a τ hrun
    cases hrun
  | succ m ih =>
    obtain ⟨n, rfl⟩ := Nat.exists_eq_add_of_le' (Nat.lt_of_lt_of_le m.succ_pos hmn)
    refine h.bind fun o => ?_
    split
    · exact ih (by omega)
    · exact .pure _

/-- A step that does not see the names in `C` leaves them alone. -/
theorem framed {names : List String} (h : C.Disjoint names) (x : Step V W α) :
    Follows C (x.framed names) (x.framed names) := by
  intro μ σ a τ hrun
  obtain ⟨⟨b, υ⟩, hx, heq⟩ := Option.map_eq_some_iff.1 hrun
  obtain ⟨rfl, rfl⟩ := Prod.mk.inj heq
  simp only [Step.framed, Store.only_patch h, hx, Option.map_some, Store.frame_patch h]

theorem binding {x : String} (hx : x ∉ C) (v : V) {rest rest' : Step V W α}
    (h : Follows C rest rest') : Follows C (rest.binding x v) (rest'.binding x v) := by
  intro μ σ a τ hrun
  obtain ⟨⟨b, υ⟩, hrest, heq⟩ := Option.map_eq_some_iff.1 hrun
  obtain ⟨rfl, rfl⟩ := Prod.mk.inj heq
  have hrest' := h μ _ _ _ hrest
  simp only [Step.binding, Store.set_patch hx, hrest', Option.map_some,
    Store.locals_patch_of_notMem hx]

end Follows

end Step

/-! ### What a run sees and changes -/

namespace Interpretation

variable {C : List String} (I : Interpretation V W)

theorem check_follows {e : Expr} (h : C.Disjoint e.names) :
    Step.Follows C (I.check e) (I.check e) :=
  .framed h _

theorem act_follows {s : Stmt} (h : C.Disjoint (s.ownExprs.flatMap Expr.names)) :
    Step.Follows C (I.act s) (I.act s) :=
  .framed h _

theorem declaring_follows {d : Decl} (hexprs : C.Disjoint (d.rootExprs.flatMap Expr.names))
    (hname : ∀ x, d.name = some x → x ∉ C) {rest rest' : Step V W α}
    (h : Step.Follows C rest rest') :
    Step.Follows C (I.declaring d rest) (I.declaring d rest') := by
  refine (Step.Follows.framed hexprs _).bind fun v => ?_
  cases hd : d.name with
  | none => exact h
  | some x => exact .binding (hname x hd) v h

theorem afterInit_follows {init : Option ForInit}
    (hexprs : C.Disjoint ((init.toList.flatMap ForInit.rootExprs).flatMap Expr.names))
    (hnames : C.Disjoint ((init.toList.flatMap ForInit.declList).filterMap Decl.name))
    {loop loop' : Step V W Ending} (h : Step.Follows C loop loop') :
    Step.Follows C (I.afterInit init loop) (I.afterInit init loop') := by
  rcases init with _ | ds | e
  · exact h
  · induction ds with
    | nil => exact h
    | cons d rest ih =>
      simp only [Option.toList_some, List.flatMap_cons, List.flatMap_nil, List.append_nil,
        ForInit.rootExprs, ForInit.declList, List.flatMap_append,
        List.disjoint_append_right] at hexprs hnames ih
      refine I.declaring_follows hexprs.1 (fun x hx hC => ?_) (ih hexprs.2 fun x hC hx => ?_)
      · exact hnames hC (List.mem_filterMap.2 ⟨d, List.mem_cons_self, hx⟩)
      · obtain ⟨d', hd', hx⟩ := List.mem_filterMap.1 hx
        exact hnames hC (List.mem_filterMap.2 ⟨d', List.mem_cons_of_mem _ hd', hx⟩)
  · refine Step.Follows.andThen (I.act_follows ?_) h
    simpa [ForInit.rootExprs, Stmt.ownExprs] using hexprs

theorem forTest_follows {cond : Option Expr} (h : C.Disjoint (cond.toList.flatMap Expr.names)) :
    Step.Follows C (I.forTest cond) (I.forTest cond) := by
  cases cond with
  | none => exact .pure true
  | some e => exact I.check_follows (by simpa using h)

theorem forNext_follows {next : Option Expr} (h : C.Disjoint (next.toList.flatMap Expr.names)) :
    Step.Follows C (I.forNext next) (I.forNext next) := by
  cases next with
  | none => exact .pure _
  | some e => exact I.act_follows (by simpa [Stmt.ownExprs] using h)

end Interpretation

namespace Stmt

variable {C : List String} {I : Interpretation V W}

theorem disjoint_of_declared? {s : Stmt} {d : Decl} (hd : s.declared? = some d)
    (h : C.Disjoint s.names) :
    C.Disjoint (d.rootExprs.flatMap Expr.names) ∧ ∀ x, d.name = some x → x ∉ C := by
  fun_induction declared? s with
  | case1 d' c =>
    cases hd
    simp only [names, substmts, ownNames, ownExprs, ownDecls, List.flatMap_cons, List.flatMap_nil,
      List.append_nil, List.disjoint_append_right] at h
    exact ⟨h.1, fun x hx hC => h.2 hC (List.mem_filterMap.2 ⟨d, List.mem_cons_self, hx⟩)⟩
  | case2 n s c ih =>
    exact ih hd (by simpa using h)
  | case3 => cases hd

mutual

/-- A run neither reads nor changes names that do not occur in the statement, and it is the same
with larger bounds. -/
theorem exec_follows (s : Stmt) (hC : C.Disjoint s.names) {turns turns' cap cap' : Nat}
    (hturns : turns ≤ turns') (hcap : cap ≤ cap') :
    Step.Follows C (s.exec I turns cap) (s.exec I turns' cap') := by
  cases s with
  | decl d c =>
    obtain ⟨hexprs, hname⟩ := disjoint_of_declared? (s := decl d c) rfl hC
    exact I.declaring_follows hexprs hname (.pure _)
  | block items b c =>
    exact execList_follows items (by simpa using hC) hturns hcap
  | ifThen p t c =>
    simp only [names_ifThen, List.disjoint_append_right] at hC
    exact (I.check_follows hC.1).choose (exec_follows t hC.2 hturns hcap) (.pure _)
  | ifElse p t e c =>
    simp only [names_ifElse, List.disjoint_append_right] at hC
    exact (I.check_follows hC.1).choose (exec_follows t hC.2.1 hturns hcap)
      (exec_follows e hC.2.2 hturns hcap)
  | forLoop init cond next body c =>
    simp only [names_forLoop, ownNames, ownExprs, ownDecls, List.flatMap_append,
      List.disjoint_append_right] at hC
    obtain ⟨⟨⟨⟨hinit, hcond⟩, hnext⟩, hdecls⟩, hbody⟩ := hC
    refine I.afterInit_follows hinit hdecls (Step.Follows.iterate ?_ hturns)
    exact (I.forTest_follows hcond).turn (exec_follows body hbody hturns hcap)
      (I.forNext_follows hnext)
  | whileLoop p body c =>
    simp only [names_whileLoop, List.disjoint_append_right] at hC
    exact ((I.check_follows hC.1).turn (exec_follows body hC.2 hturns hcap) (.pure _)).iterate
      hcap
  | doWhile p body c =>
    simp only [names_doWhile, List.disjoint_append_right] at hC
    exact ((exec_follows body hC.2 hturns hcap).turnLast (I.check_follows hC.1)).iterate hcap
  | label n s c => exact exec_follows s (by simpa using hC) hturns hcap
  | expr | ret | brk | cont | goto | empty =>
    exact I.act_follows (by simpa [names, substmts, ownNames, ownDecls] using hC)

theorem execList_follows (items : List Stmt) (hC : C.Disjoint (namesList items))
    {turns turns' cap cap' : Nat} (hturns : turns ≤ turns') (hcap : cap ≤ cap') :
    Step.Follows C (execList I turns cap items) (execList I turns' cap' items) := by
  cases items with
  | nil => exact .pure _
  | cons s rest =>
    simp only [namesList_cons, List.disjoint_append_right] at hC
    have hrest := execList_follows rest hC.2 hturns hcap
    simp only [execList]
    cases hd : s.declared? with
    | some d =>
      obtain ⟨hexprs, hname⟩ := disjoint_of_declared? hd hC.1
      exact I.declaring_follows hexprs hname hrest
    | none => exact (exec_follows s hC.1 hturns hcap).andThen hrest

end

variable {s : Stmt} {σ τ τ' : Store V W} {o o' : Ending}

/-- A statement ends in one way. -/
theorem Ends.unique (h : s.Ends I σ o τ) (h' : s.Ends I σ o' τ') : o = o' ∧ τ = τ' := by
  obtain ⟨n, hn⟩ := h
  obtain ⟨n', hn'⟩ := h'
  -- Both runs are the one with the larger of the two bounds.
  have hmax {m : Nat} {o : Ending} {τ : Store V W} (hm : m ≤ max n n')
      (hrun : s.exec I m m σ = some (o, τ)) :
      s.exec I (max n n') (max n n') σ = some (o, τ) := by
    simpa using exec_follows (C := []) s (by simp) hm hm σ.locals σ o τ hrun
  have heq := (hmax (Nat.le_max_left n n') hn).symm.trans (hmax (Nat.le_max_right n n') hn')
  exact Prod.mk.inj (Option.some.inj heq)

theorem EndsWithin.ends {cap : Nat} (h : s.EndsWithin I cap σ o τ) : s.Ends I σ o τ := by
  obtain ⟨n, hn⟩ := h
  refine ⟨max n cap, ?_⟩
  simpa using exec_follows (C := []) s (by simp) (Nat.le_max_left n cap) (Nat.le_max_right n cap)
    σ.locals σ o τ hn

end Stmt

/-! ### Runs by the rules of C -/

namespace Step

/-- A result that may be missing. -/
def ofOption (a : Option α) : Step V W α :=
  fun σ => a.map (·, σ)

/-- What a name stands for. -/
def read (x : String) : Step V W V :=
  fun σ => (σ.locals x).map (·, σ)

/-- Let a name stand for another value. -/
def write (x : String) (v : V) : Step V W Unit :=
  fun σ => some ((), σ.set x (some v))

end Step

namespace Expr

/-- The value of an expression by the rules of C, for variables that are no arrays. Calls and
connectives get stuck. -/
def scalarValue : Expr → Step Scalar Unit Scalar
  | id x _ => .read x
  | literal value _ => .ofOption value.scalar?
  | binary op l r _ => do
    let v ← l.scalarValue
    let w ← r.scalarValue
    .ofOption (Rules.implicit.binary op v w)
  | unary op e _ =>
    if op.isMutating then do
      let x ← .ofOption e.idName?
      let old ← .read x
      let new ← .ofOption (Rules.implicit.step op old)
      .write x new
      pure (if op.isTrailing then old else new)
    else do
      let v ← e.scalarValue
      .ofOption (Rules.implicit.unary op v)
  | assign .assign target value _ => do
    let x ← .ofOption target.idName?
    let old ← .read x
    let v ← value.scalarValue
    let new ← .ofOption (Rules.implicit.expect? old.type v)
    .write x new
    pure new
  | _ => .ofOption none

end Expr

namespace Interpretation

/-- Runs by the rules of C over variables that are no arrays. -/
def scalars : Interpretation Scalar Unit where
  test e := do
    let v ← e.scalarValue
    .ofOption (Rules.implicit.condition? v)
  perform
    | .expr e _ => do
      let _ ← e.scalarValue
      pure .done
    | .ret (some e) _ => do
      let _ ← e.scalarValue
      pure .returned
    | .ret none _ => pure .returned
    | .brk _ => pure .broke
    | .cont _ => pure .continued
    | .goto l _ => pure (.jumped l)
    | .empty _ => pure .done
    | _ => .ofOption none
  declare d := do
    let e ← .ofOption d.init
    let v ← e.scalarValue
    .ofOption (Rules.implicit.expect? d.scalar v)
  number i := .int i
  test_not e := by
    simp only [Expr.scalarValue, UnaryOp.isMutating, Bool.false_eq_true, if_false, bind_assoc,
      map_bind]
    refine bind_congr fun v => ?_
    have hnot : Rules.implicit.unary .not v =
        (Rules.implicit.condition? v).map fun b => Rules.implicit.truth !b := by
      cases v <;> rfl
    have htruth (b : Bool) : Rules.implicit.condition? (Rules.implicit.truth b) = some b := by
      cases b <;> rfl
    rw [hnot]
    funext σ
    cases Rules.implicit.condition? v with
    | none => rfl
    | some b => exact congrArg (Option.map (·, σ)) (htruth !b)
  perform_brk := rfl
  perform_empty _ := rfl
  declare_counter k := by
    rfl
  test_counter k i σ hi hk := by
    have hread : (Step.read k : Step Scalar Unit Scalar) σ = some (.int i, σ) := by
      rw [Step.read, hk]
      rfl
    refine Step.bind_eq_some.2 ⟨.int (Scalar.bit (decide (i < iterationCap.toNat))), σ, ?_, ?_⟩
    · refine Step.bind_eq_some.2 ⟨.int i, σ, hread, ?_⟩
      refine Step.bind_eq_some.2 ⟨.int iterationCap, σ, rfl, ?_⟩
      have hlt : decide ((i : Int) < iterationCap) = decide (i < iterationCap.toNat) := by
        refine decide_eq_decide.2 ?_
        simp only [iterationCap]
        omega
      rw [← hlt]
      rfl
    · cases decide (i < iterationCap.toNat) <;> rfl
  perform_counter k i σ hi hk := by
    have hread : (Step.read k : Step Scalar Unit Scalar) σ = some (.int i, σ) := by
      rw [Step.read, hk]
      rfl
    refine Step.bind_eq_some.2 ⟨.int i, σ.set k (some (.int (i + 1))), ?_, rfl⟩
    exact Step.bind_eq_some.2 ⟨k, σ, rfl, Step.bind_eq_some.2 ⟨.int i, σ, hread, rfl⟩⟩

end Interpretation
end MathKernel
