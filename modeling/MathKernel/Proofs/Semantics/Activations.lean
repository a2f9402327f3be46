import MathKernel.Proofs.Semantics.Refinement

/-!
# Activations of functions

The functions of a unit call each other. An activation keeps its scalar parameters and its variables
in places of its own, numbered on from those of its caller, and gives them up when it ends; an array
is passed as the place where it is kept. A static variable of a body belongs to no activation, so
that functions with such variables are not run here: what they need is declared in the file. Texts
are not passed to functions of the unit.

Functions that the unit does not define are given. Activations that the stack of names does not
allow get stuck.

## Main definitions

* `SourceUnit.fileContext` — the names of a file and the constant that stands for no number
* `Context.enterAll` — the parameters of an activation
* `FuncDef.activate` — one activation
* `SourceUnit.call` — calls of the functions of a unit
* `isShallow` — no function has more than two activations

## Main results

* `Context.enterAll_withFunctions`, `Context.returns_enterAll` — what the parameters declare
-/

namespace MathKernel

/-! ### Names -/

/-- Whether a place is one of those of variables, from a number on. -/
def Place.isFrom (base : Nat) : Place → Bool
  | .slot index => base ≤ index
  | _ => false

/-- Leave nothing in the places of variables from a number on. -/
def Action.eraseFrom (base : Nat) : Action Unit :=
  fun m => some ((), fun c => if c.place.isFrom base then none else m c)

/-- The names of a file. The constant that stands for no number is known where the file declares
no other variable of its name. -/
def SourceUnit.fileContext (u : SourceUnit) : Context :=
  { u.context with
    vars := u.context.vars ++ [(notANumber, ⟨.float, .global notANumber, false⟩)] }

namespace Context

/-- The context with the functions of another one. -/
def withFunctions (ctx other : Context) : Context :=
  { ctx with functions := other.functions }

/-- Bind a parameter to what is passed for it. -/
def enter (rules : Rules) (ctx : Context) (d : Decl) (arg : Argument) : Action Context :=
  match d.name, arg with
  | none, _ => pure ctx
  | some name, .scalar v =>
    if d.isArray then .stuck
    else do
      let b : Binding := ⟨d.scalar, .slot ctx.slots, false⟩
      let _ ← Action.store rules b.cell v
      pure { ctx.bind name b with slots := ctx.slots + 1 }
  | some name, .array place type =>
    if d.isArray ∧ type = d.scalar then pure (ctx.bind name ⟨type, place, true⟩) else .stuck
  | some _, .text _ => .stuck

/-- Bind parameters to arguments in order, one for each. -/
def enterAll (rules : Rules) : Context → List Decl → List Argument → Action Context
  | ctx, [], [] => pure ctx
  | ctx, d :: ds, arg :: args => do
    let ctx ← ctx.enter rules d arg
    enterAll rules ctx ds args
  | _, _, _ => .stuck

end Context

/-! ### Activations -/

/-- Run an activation of a function whose variables are kept from a number on. The calls that it
makes are given for the number from which their variables are kept. -/
def FuncDef.activate (rules : Rules) (file : Context) (calls : Nat → Calls) (fuel : Nat)
    (f : FuncDef) (base : Nat) (args : List Argument) : Action Scalar :=
  if f.body.decls.any Decl.isStatic then .stuck
  else do
    let ctx ← Context.enterAll rules { file with slots := base } f.params args
    let inner := calls (Stmt.afterList ctx f.body.items).slots
    let code := Code.block (Stmt.codeList rules inner f.returnType ctx f.body.items)
    let result ← Task.run code fuel [.code code]
    Action.eraseFrom base
    match result with
    | some v => pure v
    | none => if f.returnType = .void then pure .void else .stuck

/-- Call a function of a unit, with at most so many activations on the stack and so many steps in
each. The stack lists the functions that have activations, the last one first. -/
def SourceUnit.call (rules : Rules) (u : SourceUnit) (external : MathKernel.Calls)
    (allowed : List String → Bool) : Nat → List String → Nat → MathKernel.Calls
  | 0, _, _ => fun _ _ => .stuck
  | fuel + 1, stack, base => fun name args =>
    match u.func? name with
    | none => external name args
    | some f =>
      if allowed (name :: stack) then
        f.activate rules u.fileContext (call rules u external allowed fuel (name :: stack)) fuel
          base args
      else .stuck

section Calls

variable {rules : Rules} {u : SourceUnit} {external : MathKernel.Calls}
  {allowed : List String → Bool} {name : String}

/-- A call of a function of the unit starts an activation, if the stack allows it. -/
theorem SourceUnit.call_of_func? {f : FuncDef} (h : u.func? name = some f) (fuel : Nat)
    (stack : List String) (base : Nat) (args : List Argument) :
    u.call rules external allowed (fuel + 1) stack base name args =
      if allowed (name :: stack) then
        f.activate rules u.fileContext (u.call rules external allowed fuel (name :: stack)) fuel
          base args
      else .stuck := by
  simp only [call, h]

/-- Any other function is given. -/
theorem SourceUnit.call_of_func?_eq_none (h : u.func? name = none) (fuel : Nat)
    (stack : List String) (base : Nat) (args : List Argument) :
    u.call rules external allowed (fuel + 1) stack base name args = external name args := by
  simp only [call, h]

end Calls

/-- Whether no function has more than two activations on the stack. -/
def isShallow (stack : List String) : Bool :=
  stack.all fun name => stack.count name ≤ 2

/-- Any stack. -/
def anyStack (_ : List String) : Bool := true

/-! ### What the parameters declare -/

namespace Context

open MathKernel.Action

variable {rules : Rules} {ctx : Context}

@[simp] theorem binding?_withFunctions (other : Context) :
    (ctx.withFunctions other).binding? = ctx.binding? := rfl

theorem enter_withFunctions (other : Context) (d : Decl) (arg : Argument) :
    (ctx.withFunctions other).enter rules d arg =
      ctx.enter rules d arg >>= fun ctx' => pure (ctx'.withFunctions other) := by
  unfold enter
  split
  · rfl
  · split_ifs
    · rfl
    · simp only [bind_assoc, pure_bind]
      rfl
  · split_ifs <;> rfl
  · rfl

/-- Parameters are bound the same whatever functions are known. -/
theorem enterAll_withFunctions (other : Context) (ds : List Decl) (args : List Argument) :
    enterAll rules (ctx.withFunctions other) ds args =
      enterAll rules ctx ds args >>= fun ctx' => pure (ctx'.withFunctions other) := by
  induction ds generalizing ctx args with
  | nil => cases args <;> rfl
  | cons d rest ih =>
    cases args with
    | nil => rfl
    | cons arg args =>
      simp only [enterAll, enter_withFunctions, bind_assoc, pure_bind, ih]

theorem returns_enter (d : Decl) (arg : Argument) :
    Returns (fun ctx' => ctx'.functions = ctx.functions ∧
      ctx'.typeEnv = ctx.typeEnv.declare d) (ctx.enter rules d arg) := by
  rcases d.name.eq_none_or_eq_some with hname | ⟨name, hname⟩
  · simp only [enter, TypeEnv.declare, hname]
    exact returns_pure ⟨rfl, rfl⟩
  · cases arg with
    | scalar v =>
      simp only [enter, TypeEnv.declare, hname]
      split_ifs
      · exact returns_stuck
      · exact returns_bind fun _ => returns_pure ⟨rfl, rfl⟩
    | array place type =>
      simp only [enter, TypeEnv.declare, hname]
      split_ifs with h
      · rw [← h.2]
        exact returns_pure ⟨rfl, rfl⟩
      · exact returns_stuck
    | text =>
      simp only [enter, hname]
      exact returns_stuck

/-- Parameters declare their types and no functions. -/
theorem returns_enterAll (ds : List Decl) (args : List Argument) :
    Returns (fun ctx' => ctx'.functions = ctx.functions ∧
      ctx'.typeEnv = ds.foldl TypeEnv.declare ctx.typeEnv) (enterAll rules ctx ds args) := by
  induction ds generalizing ctx args with
  | nil =>
    cases args with
    | nil => exact returns_pure ⟨rfl, rfl⟩
    | cons => exact returns_stuck
  | cons d rest ih =>
    cases args with
    | nil => exact returns_stuck
    | cons arg args =>
      refine (returns_enter d arg).bind fun ctx' h => (ih args).imp fun ctx'' h' => ?_
      rw [List.foldl_cons, ← h.2]
      exact ⟨h'.1.trans h.1, h'.2⟩

end Context

/-! ### Types without places -/

section Types

variable {ctx ctx' : Context}

theorem Context.binding?_type_congr (h : ctx.typeEnv = ctx'.typeEnv) (name : String) :
    (ctx.binding? name).map Binding.type = (ctx'.binding? name).map Binding.type := by
  have hvars := congrArg (fun env : TypeEnv => env.vars.lookup name) h
  simp only [typeEnv, lookup_map_type] at hvars
  exact hvars

theorem Context.signature?_congr (h : ctx.typeEnv = ctx'.typeEnv) :
    ctx.signature? = ctx'.signature? :=
  congrArg TypeEnv.signature? h

mutual

/-- The type of an expression does not depend on where variables are kept. -/
theorem Expr.ctype_congr (h : ctx.typeEnv = ctx'.typeEnv) (e : Expr) :
    e.ctype ctx = e.ctype ctx' := by
  cases e with
  | id name c => rw [ctype, ctype, Context.binding?_type_congr h]
  | literal | cast | initList => rfl
  | binary op l r c => rw [ctype, ctype, ctype_congr h l, ctype_congr h r]
  | unary op e c => rw [ctype, ctype, ctype_congr h e]
  | assign op t v c => rw [ctype, ctype, ctype_congr h t]
  | ternary p t e c => rw [ctype, ctype, ctype_congr h t, ctype_congr h e]
  | call callee args c => rw [ctype, ctype, Context.signature?_congr h]
  | index a i c => rw [ctype, ctype, ctype_congr h a]
  | comma items c => rw [ctype, ctype, lastCtype_congr h items]

theorem Expr.lastCtype_congr (h : ctx.typeEnv = ctx'.typeEnv) (items : List Expr) :
    lastCtype ctx items = lastCtype ctx' items := by
  match items with
  | [] => rfl
  | [e] => exact ctype_congr h e
  | e :: e' :: rest => exact lastCtype_congr h (e' :: rest)

end

theorem Context.declare_congr (h : ctx.typeEnv = ctx'.typeEnv) (d : Decl) :
    (ctx.declare d).typeEnv = (ctx'.declare d).typeEnv := by
  have hbind (name : String) (b b' : Binding) (hb : b.type = b'.type) :
      (ctx.bind name b).typeEnv = (ctx'.bind name b').typeEnv := by
    simp only [typeEnv, TypeEnv.mk.injEq, bind, List.map_cons, hb] at h ⊢
    exact ⟨h.1, congrArg _ h.2⟩
  unfold declare
  rcases d.name.eq_none_or_eq_some with hname | ⟨name, hname⟩
  · rw [hname]
    exact h
  · rw [hname]
    cases hs : Signature.ofDecl? d with
    | none =>
      dsimp only
      split
      · exact hbind name _ _ rfl
      · exact hbind name _ _ rfl
    | some s =>
      have hfunctions : ctx.functions = ctx'.functions := congrArg TypeEnv.functions h
      have hvars := congrArg TypeEnv.vars (hbind name ⟨s.result, .function name, false⟩ _ rfl)
      simp only [declareFunction, typeEnv, signature?_congr h, hfunctions, TypeEnv.mk.injEq,
        true_and]
      exact hvars

end Types

/-! ### Expressions in related contexts -/

/-- Declarations and the ends of blocks keep contexts related. -/
structure Context.IsKept (R : Context → Context → Prop) : Prop where
  declare {ctx ctx' : Context} (d : Decl) (h : R ctx ctx') : R (ctx.declare d) (ctx'.declare d)
  leave {ctx ctx' inner inner' : Context} (h : R ctx ctx') (hinner : R inner inner') :
    R (ctx.leave inner) (ctx'.leave inner')

/-- Contexts with the same types. -/
theorem Context.isKept_typeEnv : IsKept fun ctx ctx' => ctx.typeEnv = ctx'.typeEnv where
  declare d h := declare_congr h d
  leave h _ := h

/-- The same expression in related contexts. -/
def SameIn (R : Context → Context → Prop) (x y : Context × Expr) : Prop :=
  R x.1 y.1 ∧ x.2 = y.2

section Related

variable {R : Context → Context → Prop} {ctx ctx' : Context}

theorem sameIn_map (h : R ctx ctx') (exprs : List Expr) :
    List.Forall₂ (SameIn R) (exprs.map (ctx, ·)) (exprs.map (ctx', ·)) := by
  induction exprs with
  | nil => exact .nil
  | cons e rest ih => exact .cons ⟨h, rfl⟩ ih

theorem Decl.exprsIn_related (hR : Context.IsKept R) (h : R ctx ctx') (d : Decl) :
    List.Forall₂ (SameIn R) (d.exprsIn ctx) (d.exprsIn ctx') :=
  List.rel_append (sameIn_map h _) (sameIn_map (hR.declare d h) _)

theorem Decl.exprsInList_related (hR : Context.IsKept R) (h : R ctx ctx') (ds : List Decl) :
    List.Forall₂ (SameIn R) (exprsInList ctx ds) (exprsInList ctx' ds) ∧
      R (ds.foldl Context.declare ctx) (ds.foldl Context.declare ctx') := by
  induction ds generalizing ctx ctx' with
  | nil => exact ⟨.nil, h⟩
  | cons d rest ih =>
    obtain ⟨hexprs, hafter⟩ := ih (hR.declare d h)
    exact ⟨List.rel_append (exprsIn_related hR h d) hexprs, hafter⟩

theorem ForInit.exprsIn_related (hR : Context.IsKept R) (init : Option ForInit)
    (ctx ctx' : Context) (h : R ctx ctx') :
    List.Forall₂ (SameIn R) (exprsIn ctx init) (exprsIn ctx' init) ∧
      R (after ctx init) (after ctx' init) := by
  match init with
  | none => exact ⟨.nil, h⟩
  | some (.decls ds) => exact Decl.exprsInList_related hR h ds
  | some (.expr e) => exact ⟨sameIn_map h [e], h⟩

namespace Stmt

mutual

/-- The expressions of a statement in two related contexts. -/
theorem exprsIn_related (hR : Context.IsKept R) (s : Stmt) (ctx ctx' : Context) (h : R ctx ctx') :
    List.Forall₂ (SameIn R) (s.exprsIn ctx) (s.exprsIn ctx') ∧ R (s.after ctx) (s.after ctx') := by
  cases s with
  | decl d c => exact ⟨d.exprsIn_related hR h, hR.declare d h⟩
  | block items b c =>
    obtain ⟨hitems, hafter⟩ := exprsInList_related hR items ctx ctx' h
    exact ⟨hitems, hR.leave h hafter⟩
  | expr e c => exact ⟨sameIn_map h [e], h⟩
  | ifThen p t c =>
    obtain ⟨ht, hafter⟩ := exprsIn_related hR t ctx ctx' h
    exact ⟨.cons ⟨h, rfl⟩ ht, hafter⟩
  | ifElse p t e c =>
    obtain ⟨ht, hafter⟩ := exprsIn_related hR t ctx ctx' h
    obtain ⟨he, hafter'⟩ := exprsIn_related hR e _ _ hafter
    exact ⟨.cons ⟨h, rfl⟩ (List.rel_append ht he), hafter'⟩
  | forLoop init cond next body c =>
    obtain ⟨hinit, hinner⟩ := ForInit.exprsIn_related hR init ctx ctx' h
    obtain ⟨hbody, hafter⟩ := exprsIn_related hR body _ _ hinner
    exact ⟨List.rel_append (List.rel_append hinit (sameIn_map hinner _)) hbody,
      hR.leave h hafter⟩
  | whileLoop p body c =>
    obtain ⟨hbody, hafter⟩ := exprsIn_related hR body ctx ctx' h
    exact ⟨.cons ⟨h, rfl⟩ hbody, hafter⟩
  | doWhile p body c =>
    obtain ⟨hbody, hafter⟩ := exprsIn_related hR body ctx ctx' h
    exact ⟨.cons ⟨h, rfl⟩ hbody, hafter⟩
  | ret value c => exact ⟨sameIn_map h value.toList, h⟩
  | label n s c => exact exprsIn_related hR s ctx ctx' h
  | brk | cont | goto | empty => exact ⟨.nil, h⟩

theorem exprsInList_related (hR : Context.IsKept R) (items : List Stmt) (ctx ctx' : Context)
    (h : R ctx ctx') :
    List.Forall₂ (SameIn R) (exprsInList ctx items) (exprsInList ctx' items) ∧
      R (afterList ctx items) (afterList ctx' items) := by
  cases items with
  | nil => exact ⟨.nil, h⟩
  | cons s rest =>
    obtain ⟨hs, hafter⟩ := exprsIn_related hR s ctx ctx' h
    obtain ⟨hrest, hafter'⟩ := exprsInList_related hR rest _ _ hafter
    exact ⟨List.rel_append hs hrest, hafter'⟩

end

/-- An expression of a body is one of the same body in a related context. -/
theorem exists_mem_exprsInList (hR : Context.IsKept R) (h : R ctx ctx') {items : List Stmt}
    {y : Context × Expr} (hy : y ∈ exprsInList ctx' items) :
    ∃ x ∈ exprsInList ctx items, R x.1 y.1 ∧ x.2 = y.2 :=
  forall₂_exists_of_mem (exprsInList_related hR items ctx ctx' h).1 y hy

end Stmt

end Related

end MathKernel
