import MathKernel.Proofs.Normalize.CoercedRuns
import MathKernel.Proofs.Normalize.UnrolledUnits

/-!
# Runs of unrolled units

As long as no function has more than two activations, the second activation of a function that calls
itself is one of its copy, and none of the calls that were cut off from the copy is reached. So an
unrolled unit computes what the unit does, if a conditional with a cut branch still makes the same
numbers of its values.

## Main definitions

* `FuncDef.KeepsJoins` — the conditionals of a function join their branches as those of its copy do
* `SourceUnit.FollowedTo` — calls of the unit are calls of the unrolled unit, to a depth

## Main results

* `SourceUnit.followedTo` — by induction on the depth
* `SourceUnit.unrollRecursion_run` — runs of an unrolled unit
* `unrollRecursion_changes_branch` — a conditional that makes other numbers
-/

namespace MathKernel

open MathKernel.Action

variable {u : SourceUnit} {f copy : FuncDef} {name : String}
  {calls calls' : MathKernel.Calls}

/-- The conditionals of a function join their branches as before when the calls that lead back to it
are cut off: they make floating numbers of the values of both, or integers. -/
def FuncDef.KeepsJoins (u : SourceUnit) (f : FuncDef) : Prop :=
  ∀ x ∈ Stmt.exprsInList (f.params.foldl (Context.declareParam .global) u.fileContext) f.body.items,
    x.2.Everywhere fun e =>
      (e.rebuild (.sendCall (u.cutTarget f.name))).joinsFloat x.1 = e.joinsFloat x.1

/-- How a conditional joins its branches does not depend on where variables are kept. -/
theorem Expr.joinsFloat_congr {ctx ctx' : Context} (h : ctx.typeEnv = ctx'.typeEnv) (e : Expr) :
    e.joinsFloat ctx = e.joinsFloat ctx' := by
  cases e with
  | ternary p t e c => rw [joinsFloat, joinsFloat, ctype_congr h t, ctype_congr h e]
  | _ => rfl

/-- The conditionals of a function join their branches alike wherever its variables are kept. -/
theorem FuncDef.KeepsJoins.everywhere (h : f.KeepsJoins u) {ctx : Context}
    (hctx : ctx.typeEnv = f.params.foldl TypeEnv.declare u.fileContext.typeEnv)
    {x : Context × Expr} (hx : x ∈ Stmt.exprsInList ctx f.body.items) :
    x.2.Everywhere fun e =>
      (e.rebuild (.sendCall (u.cutTarget f.name))).joinsFloat x.1 = e.joinsFloat x.1 := by
  have hparams := (Context.typeEnv_declareParams .global f.params u.fileContext).1
  obtain ⟨y, hy, henv, hexpr⟩ :=
    Stmt.exists_mem_exprsInList Context.isKept_typeEnv (hparams.trans hctx.symm) hx
  intro e he
  rw [← hexpr] at he
  rw [Expr.joinsFloat_congr henv.symm, Expr.joinsFloat_congr henv.symm]
  exact h y hy e he

namespace SourceUnit

/-! ### Where calls go -/

section Sends

variable (hnodup : (u.funcs.map FuncDef.name).Nodup) (hknown : u.CallsKnown)
  (hdeclares : u.DeclaresFunctions)
include hnodup

/-- What the file knows, the unrolled file knows. -/
theorem signature?_fileContext_unrollRecursion {s : Signature}
    (h : u.fileContext.signature? name = some s) :
    u.unrollRecursion.1.fileContext.signature? name = some s :=
  (signature?_unrollRecursion hnodup (not_isCopyName_of_signature? h)).trans h

include hknown

/-- A call of a function that is kept under its name. -/
theorem callBelow_of_kept (hf : f ∈ u.funcs) (hname : name ∈ f.calledNames)
    (h : ∀ args, (calls name args).Below (calls' name args)) :
    CallBelow calls calls' u.fileContext u.unrollRecursion.1.fileContext name name :=
  ⟨signature?_unrollRecursion hnodup (hknown.not_isCopyName hf hname), .inl rfl, h⟩

include hdeclares

/-- The calls of a function, once its calls of itself are known to go to its copy. -/
theorem sends_redirected (honly : u.OnlySelfCalls) (hf : f ∈ u.funcs)
    (hself : ∀ copy, u.unrolling.copies.lookup f.name = some copy →
      ∀ args, (calls f.name args).Below (calls' copy.name args))
    (hother : ∀ name ∈ f.calledNames, name ≠ f.name →
      ∀ args, (calls name args).Below (calls' name args)) :
    Sends calls calls' u.fileContext u.unrollRecursion.1.fileContext f.calledNames
      (u.redirectTarget f.name) where
  known := signature?_fileContext_unrollRecursion hnodup
  kept {name new} hname htarget := by
    by_cases hsame : name = f.name
    · subst hsame
      obtain ⟨copy, hcopy, hcopyTarget⟩ := exists_copy hnodup hf hname
      obtain rfl : copy.name = new := Option.some.inj (hcopyTarget.symm.trans htarget)
      have hcopied := (u.isSound_unrolling.named _ (mem_of_lookup_eq_some hcopy)).1
      refine ⟨?_, .inr ⟨hdeclares.isCalled f hf, isCalled_of_isCopyName hcopied⟩, hself copy hcopy⟩
      exact (signature?_copy hnodup hdeclares hf hcopy).trans (hdeclares.signature f hf).symm
    · rw [redirectTarget_of_ne honly hsame] at htarget
      obtain rfl := Option.some.inj htarget
      exact callBelow_of_kept hnodup hknown hf hname (hother name hname hsame)
  cut _ htarget := by cases htarget

/-- The calls of a copy, once calls of its function are known to get stuck. -/
theorem sends_cut (honly : u.OnlySelfCalls) (hf : f ∈ u.funcs)
    (hself : ∀ args, calls f.name args = stuck)
    (hother : ∀ name ∈ f.calledNames, name ≠ f.name →
      ∀ args, (calls name args).Below (calls' name args)) :
    Sends calls calls' u.fileContext u.unrollRecursion.1.fileContext f.calledNames
      (u.cutTarget f.name) where
  known := signature?_fileContext_unrollRecursion hnodup
  kept {name new} hname htarget := by
    rw [cutTarget, Option.ite_none_left_eq_some, List.contains_iff_mem] at htarget
    obtain ⟨hleads, heq⟩ := htarget
    obtain rfl := Option.some.inj heq
    refine callBelow_of_kept hnodup hknown hf hname (hother name hname ?_)
    rintro rfl
    exact hleads (CallGraph.mem_leadsTo_of_chain hnodup (List.mem_map_of_mem hf) .refl)
  cut {name} hname htarget := by
    have hleads : name ∈ (CallGraph.ofUnit u).leadsTo f.name := by
      by_contra hleads
      rw [cutTarget, if_neg (by simpa using hleads)] at htarget
      cases htarget
    have hcall : u.Calls f.name name := ⟨f, hf, rfl, hname, (List.mem_filter.1 hleads).1⟩
    rw [honly.eq_of_leadsTo hnodup hcall hleads]
    exact ⟨hdeclares.isCalled f hf, hself⟩

end Sends

/-! ### Activations -/

section Activations

variable (hnodup : (u.funcs.map FuncDef.name).Nodup) (hdeclares : u.DeclaresFunctions)
  (hf : f ∈ u.funcs) {calls calls' : Nat → MathKernel.Calls}
include hdeclares hf

theorem repeatFunctions_body : Stmt.RepeatFunctions u.fileContext f.body.stmts :=
  fun s hs d hd => hdeclares.bodies f hf d (List.mem_flatMap.2 ⟨s, hs, hd⟩)

/-- The expressions of a body are evaluated where the functions of the file are known, and call what
the body calls. -/
theorem evaluatedIn_body {ctx : Context} (hctx : ctx.functions = u.fileContext.functions) :
    ∀ x ∈ Stmt.exprsInList ctx f.body.items,
      EvaluatedIn u.fileContext (fun e => ∀ name ∈ e.callee?, name ∈ f.calledNames) x := by
  have hcallees : ∀ s ∈ f.body.stmts, ∀ e ∈ s.ownExprs, e.CalleesIn f.calledNames := by
    intro s hs e he e' he' name hname
    have hexpr : e' ∈ f.body.exprs :=
      List.mem_flatMap.2 ⟨s, hs, List.mem_flatMap.2 ⟨e, he, he'⟩⟩
    exact List.mem_filterMap.2 ⟨e', hexpr, hname⟩
  exact (Stmt.evaluatedIn_exprsInList f.body.items ctx hctx (repeatFunctions_body hdeclares hf)
    hcallees).1

include hnodup

omit hf in
theorem vars_fileContext_unrollRecursion :
    u.unrollRecursion.1.fileContext.vars = u.fileContext.vars := by
  simp only [fileContext, vars_unrollRecursion hnodup hdeclares]

/-- An activation of a function with its calls redirected. -/
theorem activate_redirected
    (hsends : ∀ base, Sends (calls base) (calls' base) u.fileContext
      u.unrollRecursion.1.fileContext f.calledNames (u.redirectTarget f.name))
    (fuel base : Nat) (args : List Argument) :
    (f.activate .implicit u.fileContext calls fuel base args).Below
      ((u.redirected f).activate .implicit u.unrollRecursion.1.fileContext calls' fuel base
        args) := by
  have hparams : (u.redirected f).params = f.params := rfl
  refine FuncDef.activate_sent (vars_fileContext_unrollRecursion hnodup hdeclares) hsends hparams
    rfl (body_redirected u f) (repeatFunctions_body hdeclares hf) (fun ctx hctx _ x hx => ?_)
    fuel base args
  obtain ⟨hfunctions, hcallees⟩ := evaluatedIn_body hdeclares hf hctx x hx
  exact Expr.sendable_of_forall_some (hsends 0) hfunctions hcallees fun name _ => ⟨_, rfl⟩

/-- An activation of a copy. -/
theorem activate_copy (hjoins : f.KeepsJoins u)
    (hcopy : u.unrolling.copies.lookup f.name = some copy)
    (hsends : ∀ base, Sends (calls base) (calls' base) u.fileContext
      u.unrollRecursion.1.fileContext f.calledNames (u.cutTarget f.name))
    (fuel base : Nat) (args : List Argument) :
    (f.activate .implicit u.fileContext calls fuel base args).Below
      (copy.activate .implicit u.unrollRecursion.1.fileContext calls' fuel base args) := by
  have hdecl := decl_copy hnodup hf hcopy
  refine FuncDef.activate_sent (vars_fileContext_unrollRecursion hnodup hdeclares) hsends ?_ ?_
    (body_copy hnodup hf hcopy) (repeatFunctions_body hdeclares hf)
    (fun ctx hctx hparams x hx => ?_) fuel base args
  · rw [FuncDef.params, FuncDef.params, hdecl, Decl.params_rename]
  · rw [FuncDef.returnType, FuncDef.returnType, hdecl, Decl.scalar_rename]
  · obtain ⟨hfunctions, hcallees⟩ := evaluatedIn_body hdeclares hf hctx x hx
    refine Expr.sendable_of_joins (hsends 0) hfunctions hcallees (fun name _ new hnew => ?_)
      (hjoins.everywhere hparams hx)
    rw [cutTarget, Option.ite_none_left_eq_some] at hnew
    exact (Option.some.inj hnew.2).symm

end Activations

/-! ### Runs -/

/-- To the given depth, a call of a function that has no activation is one of the function in the
unrolled unit, and a call of one that has an activation is one of its copy. All functions on the
stack lead to the called one. -/
structure FollowedTo (u : SourceUnit) (external : MathKernel.Calls) (fuel : Nat) : Prop where
  first (stack stack' : List String) (base : Nat) {f : FuncDef} : f ∈ u.funcs →
    (∀ name ∈ stack, Relation.ReflTransGen u.Calls name f.name) → f.name ∉ stack → ∀ args,
      (u.call .implicit external isShallow fuel stack base f.name args).Below
        (u.unrollRecursion.1.call .implicit external anyStack fuel stack' base f.name args)
  again (stack stack' : List String) (base : Nat) {f copy : FuncDef} : f ∈ u.funcs →
    (∀ name ∈ stack, Relation.ReflTransGen u.Calls name f.name) → f.name ∈ stack →
      u.unrolling.copies.lookup f.name = some copy → ∀ args,
        (u.call .implicit external isShallow fuel stack base f.name args).Below
          (u.unrollRecursion.1.call .implicit external anyStack fuel stack' base copy.name args)

section Runs

variable {stack : List String}

/-- What is run if a stack is shallow is below what is run with any stack. -/
theorem below_ite {x y : Action Scalar} {stack stack' : List String} (h : x.Below y) :
    (if isShallow stack then x else stuck).Below (if anyStack stack' then y else stuck) := by
  rw [anyStack, if_pos rfl]
  split_ifs
  · exact h
  · exact matched_stuck _

/-- A function with an activation below its own has no third one. -/
theorem not_isShallow (h : name ∈ stack) : ¬isShallow (name :: name :: stack) := by
  intro hshallow
  have hcount := List.all_eq_true.1 hshallow name List.mem_cons_self
  have hpos := List.count_pos_iff.2 h
  simp only [List.count_cons_self, decide_eq_true_eq] at hcount
  omega

theorem call_of_not_isShallow (hf : u.func? name = some f) (h : ¬isShallow (name :: stack))
    (external : MathKernel.Calls) (fuel base : Nat) (args : List Argument) :
    u.call .implicit external isShallow fuel stack base name args = stuck := by
  cases fuel with
  | zero => rfl
  | succ fuel => rw [call_of_func? hf, if_neg h]

variable {external : MathKernel.Calls} {fuel : Nat} (hknown : u.CallsKnown)
  (honly : u.OnlySelfCalls)
include hknown honly

/-- What a function calls besides itself has no activation yet. -/
theorem FollowedTo.other (h : u.FollowedTo external fuel) (hf : f ∈ u.funcs)
    (hstack : ∀ name ∈ stack, Relation.ReflTransGen u.Calls name f.name)
    (hname : name ∈ f.calledNames) (hne : name ≠ f.name) (stack' : List String) (base : Nat)
    (args : List Argument) :
    (u.call .implicit external isShallow fuel (f.name :: stack) base name args).Below
      (u.unrollRecursion.1.call .implicit external anyStack fuel stack' base name args) := by
  by_cases hmem : name ∈ u.funcs.map FuncDef.name
  · obtain ⟨g, hg, rfl⟩ := List.mem_map.1 hmem
    have hcall : u.Calls f.name g.name := ⟨f, hf, rfl, hname, hmem⟩
    have hleads : ∀ name ∈ f.name :: stack, Relation.ReflTransGen u.Calls name g.name :=
      List.forall_mem_cons.2 ⟨.single hcall, fun z hz => (hstack z hz).tail hcall⟩
    refine h.first _ _ _ hg hleads (fun hon => ?_) args
    -- A function on the stack that is called again would close a circle.
    rcases List.mem_cons.1 hon with heq | hon
    · exact hne heq
    · rcases Relation.reflTransGen_iff_eq_or_transGen.1 (hstack _ hon) with heq | hback
      · exact hne heq.symm
      · exact hne (honly _ _ (.single hcall) hback).symm
  · have hunknown := func?_unknown hmem (hknown.not_isCopyName hf hname)
    cases fuel with
    | zero => exact matched_stuck _
    | succ fuel =>
      rw [call_of_func?_eq_none (func?_eq_none hmem), call_of_func?_eq_none hunknown]
      exact below_refl _

variable (hnodup : (u.funcs.map FuncDef.name).Nodup) (hdeclares : u.DeclaresFunctions)
  (hjoins : ∀ f ∈ u.funcs, f.KeepsJoins u)
include hnodup hdeclares hjoins

/-- One more activation. -/
theorem FollowedTo.succ (h : u.FollowedTo external fuel) : u.FollowedTo external (fuel + 1) where
  first stack stack' base f hf hstack hnot args := by
    have hsends (base : Nat) := sends_redirected hnodup hknown hdeclares honly hf
      (fun copy hcopy => h.again _ (f.name :: stack') base hf
        (List.forall_mem_cons.2 ⟨.refl, hstack⟩) List.mem_cons_self hcopy)
      (fun name hname hne => h.other hknown honly hf hstack hname hne (f.name :: stack') base)
    rw [call_of_func? (func?_of_mem hnodup hf), call_of_func? (func?_redirected hnodup hf)]
    refine below_ite ?_
    exact activate_redirected hnodup hdeclares hf hsends fuel base args
  again stack stack' base f copy hf hstack hon hcopy args := by
    have hthird := call_of_not_isShallow (func?_of_mem hnodup hf) (not_isShallow hon) external fuel
    have hsends (base : Nat) := sends_cut hnodup hknown hdeclares honly hf (hthird base)
      (fun name hname hne => h.other hknown honly hf hstack hname hne (copy.name :: stack') base)
    rw [call_of_func? (func?_of_mem hnodup hf), call_of_func? (func?_copy hnodup hf hcopy)]
    refine below_ite ?_
    exact activate_copy hnodup hdeclares hf (hjoins f hf) hcopy hsends fuel base args

/-- Calls of the unit are calls of the unrolled unit, to any depth. -/
theorem followedTo (external : MathKernel.Calls) (fuel : Nat) : u.FollowedTo external fuel := by
  induction fuel with
  | zero => constructor <;> (intros; exact matched_stuck _)
  | succ fuel ih => exact ih.succ hknown honly hnodup hdeclares hjoins

end Runs

/-- Calls with a shallow stack are calls. -/
theorem call_below_anyStack (hdeclares : u.DeclaresFunctions) (external : MathKernel.Calls)
    (fuel : Nat) (stack : List String) (base : Nat) (name : String) (args : List Argument) :
    (u.call .implicit external isShallow fuel stack base name args).Below
      (u.call .implicit external anyStack fuel stack base name args) := by
  induction fuel generalizing stack base name args with
  | zero => exact matched_stuck _
  | succ fuel ih =>
    cases hfunc : u.func? name with
    | none =>
      rw [call_of_func?_eq_none hfunc, call_of_func?_eq_none hfunc]
      exact below_refl _
    | some f =>
      have hf : f ∈ u.funcs := List.mem_of_find?_eq_some hfunc
      have hsends (base : Nat) : Sends
          (u.call .implicit external isShallow fuel (name :: stack) base)
          (u.call .implicit external anyStack fuel (name :: stack) base)
          u.fileContext u.fileContext f.calledNames some :=
        ⟨fun h => h, fun _ hnew => Option.some.inj hnew ▸ ⟨rfl, .inl rfl, ih _ _ _⟩,
          fun _ hnone => by cases hnone⟩
      rw [call_of_func? hfunc, call_of_func? hfunc]
      refine below_ite (FuncDef.activate_sent rfl hsends rfl rfl ?_
        (repeatFunctions_body hdeclares hf) (fun ctx hctx _ x hx => ?_) fuel base args)
      · rw [Expr.sendCall_some]
        exact (congrArg FuncDef.body f.rebuild_id).symm
      · obtain ⟨hfunctions, hcallees⟩ := evaluatedIn_body hdeclares hf hctx x hx
        exact Expr.sendable_of_forall_some (hsends 0) hfunctions hcallees fun name _ => ⟨name, rfl⟩

end SourceUnit

/-- Unrolling is exact for shallow recursion. Let the functions of a unit have distinct names and
call known functions, let functions that call each other in a circle be one function, and let the
declarations of each function agree. If a function returns a value and leaves a memory, no function
ever having more than two activations, then it does the same in the unrolled unit, whatever the
functions do that the unit does not define, as long as conditionals join their branches as before
when recursive calls are cut off. -/
theorem SourceUnit.unrollRecursion_run (external : MathKernel.Calls)
    (hnodup : (u.funcs.map FuncDef.name).Nodup) (hknown : u.CallsKnown) (honly : u.OnlySelfCalls)
    (hdeclares : u.DeclaresFunctions) (hjoins : ∀ f ∈ u.funcs, f.KeepsJoins u) (hf : f ∈ u.funcs)
    {fuel base : Nat} {args : List Argument} {memory : Memory} {result : Scalar × Memory}
    (hrun : u.call .implicit external isShallow fuel [] base f.name args memory = some result) :
    u.call .implicit external anyStack fuel [] base f.name args memory = some result ∧
      u.unrollRecursion.1.call .implicit external anyStack fuel [] base f.name args memory =
        some result := by
  have hfollowed := followedTo hknown honly hnodup hdeclares hjoins external fuel
  have hbelow := hfollowed.first [] [] base hf (List.forall_mem_nil _) List.not_mem_nil args
  exact ⟨(call_below_anyStack hdeclares external fuel [] base f.name args).run hrun,
    hbelow.run hrun⟩

/-- `float total; float halve(float x) { return x < 1 ? x : halve(x / 2); }
int count(int n) { total += halve(n); if (n < 1) return 0; return 1 + count(n - 1); }` -/
def halving : SourceUnit :=
  ⟨[.decl (.ofScalar "total" .float none),
    .func ⟨.prototype "halve" .float [.ofScalar "x" .float none], ⟨[
      .ret (some (.ternary (.binary .lt (.id "x" none) (.int 1 none) none) (.id "x" none)
        (.call "halve" [.binary .div (.id "x" none) (.int 2 none) none] none) none)) none], none⟩,
      none⟩,
    .func ⟨.prototype "count" .int [.ofScalar "n" .int none], ⟨[
      .expr (.assign .add (.id "total" none) (.call "halve" [.id "n" none] none) none) none,
      .ifThen (.binary .lt (.id "n" none) (.int 1 none) none)
        (.ret (some (.int 0 none)) none) none,
      .ret (some (.binary .add (.int 1 none)
        (.call "count" [.binary .sub (.id "n" none) (.int 1 none) none] none) none)) none], none⟩,
      none⟩], none⟩

/-- What a call returns and leaves in the variable `total`. -/
def withTotal (result : Scalar × Memory) : Scalar × Option Scalar :=
  (result.1, (result.2 ⟨.global "total", .float, 0⟩).map Subtype.val)

theorem unrollRecursion_run_halving :
    halving.unrollRecursion.2.isNoop = false ∧
      (halving.unrollRecursion.1.call .implicit (fun _ _ => .stuck) anyStack 20 [] 0 "count"
        [.scalar (.int 1)] sampleMemory).map withTotal = some (.int 1, some (.float 2)) := by
  have hnodup : (halving.funcs.map FuncDef.name).Nodup := by decide
  have hknown : halving.CallsKnown := by decide +kernel
  have honly : halving.OnlySelfCalls := (SourceUnit.onlySelfCalls_iff hnodup).2 (by decide +kernel)
  have hdeclares : halving.DeclaresFunctions := by
    constructor <;> decide +kernel
  have hjoins : ∀ f ∈ halving.funcs, f.KeepsJoins halving := by
    unfold FuncDef.KeepsJoins Expr.Everywhere
    decide +kernel
  have hrun : (halving.call .implicit (fun _ _ => .stuck) isShallow 20 [] 0 "count"
      [.scalar (.int 1)] sampleMemory).map withTotal = some (.int 1, some (.float 2)) := by
    decide +kernel
  obtain ⟨result, hresult, htotal⟩ := Option.map_eq_some_iff.1 hrun
  have hcount : halving.funcs[1] ∈ halving.funcs := List.getElem_mem (by decide)
  have hunrolled := SourceUnit.unrollRecursion_run (fun _ _ => .stuck) hnodup hknown honly hdeclares
    hjoins hcount hresult
  refine ⟨by decide +kernel, ?_⟩
  rw [← htotal]
  exact congrArg (Option.map withTotal) hunrolled.2

/-- `int f(int n) { return (n < 2 ? 7 : f(n - 1)) / 2 * 4; }` -/
def halvedBranch : SourceUnit :=
  ⟨[intFunction [.ofScalar "n" .int none] [
    .ret (some (.binary .mul (.binary .div
      (.ternary (.binary .lt (.id "n" none) (.int 2 none) none) (.int 7 none)
        (.call "f" [.binary .sub (.id "n" none) (.int 1 none) none] none) none)
      (.int 2 none) none) (.int 4 none) none)) none]], none⟩

/-- In the copy the other branch of the conditional is not-a-number, so that seven becomes a
floating number and its half is not truncated. -/
theorem unrollRecursion_changes_branch :
    (halvedBranch.funcs.map FuncDef.name).Nodup ∧ halvedBranch.CallsKnown ∧
      halvedBranch.OnlySelfCalls ∧ halvedBranch.DeclaresFunctions ∧
      (halvedBranch.call .implicit (fun _ _ => .stuck) isShallow 20 [] 0 "f" [.scalar (.int 2)]
        sampleMemory).map Prod.fst = some (.int 24) ∧
      (halvedBranch.unrollRecursion.1.call .implicit (fun _ _ => .stuck) anyStack 20 [] 0 "f"
        [.scalar (.int 2)] sampleMemory).map Prod.fst = some (.int 28) := by
  have hnodup : (halvedBranch.funcs.map FuncDef.name).Nodup := by decide
  refine ⟨hnodup, by decide +kernel, (SourceUnit.onlySelfCalls_iff hnodup).2 (by decide +kernel),
    by constructor <;> decide +kernel, by decide +kernel, by decide +kernel⟩

end MathKernel
