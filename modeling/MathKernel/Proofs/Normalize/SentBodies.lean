import MathKernel.Proofs.Normalize.SentCalls

/-!
# Bodies whose calls are sent elsewhere

If the calls in a body are sent to functions that do what the called ones do, then the code of the
body is below that of its new form, and so are the activations of its function. Functions that the
body declares must repeat those that the file declares.

## Main definitions

* `Stmt.CodeBelow` — the code of a statement is below that of its new form

## Main results

* `Decl.run_sent` — declarations
* `Stmt.code_sent` — the code of statements
* `FuncDef.activate_sent` — activations of functions
-/

namespace MathKernel

open MathKernel.Action

variable {calls calls' : Calls} {file file' ctx : Context} {names : List String}
  {target : String → Option String}

/-! ### Declarations -/

namespace Context

/-- A declaration declares the same among other functions, if it repeats the functions that it
declares. -/
theorem declare_withFunctions (hctx : ctx.functions = file.functions)
    (hknown : ∀ name s, file.signature? name = some s → file'.signature? name = some s) {d : Decl}
    (h : d.repeatsFunction file) :
    (ctx.withFunctions file').declare d = (ctx.declare d).withFunctions file' ∧
      (ctx.declare d).functions = file.functions := by
  unfold declare
  rcases d.name.eq_none_or_eq_some with hname | ⟨name, hname⟩
  · rw [hname]
    exact ⟨rfl, hctx⟩
  · rw [hname]
    cases hs : Signature.ofDecl? d with
    | none =>
      dsimp only
      split <;> exact ⟨rfl, hctx⟩
    | some s =>
      have hfile : file.signature? name = some s := by
        simpa [Decl.repeatsFunction, (Signature.of_ofDecl? hs).1, hname, hs] using h
      have hlookup : ctx.signature? name = some s :=
        (congrArg (List.lookup name) hctx).trans hfile
      have hlookup' : (ctx.withFunctions file').signature? name = some s := hknown name s hfile
      simp only [declareFunction, hlookup, hlookup', if_true]
      exact ⟨rfl, hctx⟩

end Context

namespace Expr

theorem isBraced_sent (e : Expr) : (e.rebuild (sendCall target)).isBraced = e.isBraced := by
  cases e with
  | call callee args c =>
    rw [rebuild_call, sendCall]
    cases target callee <;> rfl
  | initList | comma => simp only [rebuild_initList, rebuild_comma, sendCall, isBraced]
  | _ => rfl

theorem sendable_initList {items : List Expr} (c : Coord)
    (h : ∀ e ∈ items, e.Everywhere (Sendable names target ctx file')) :
    (initList items c).Everywhere (Sendable names target ctx file') := by
  refine everywhere_initList.2 ⟨⟨?_, ?_⟩, h⟩
  · intro name hname
    cases hname
  · simp only [rebuild_initList, sendCall, joinsFloat]

end Expr

namespace Decl

open MathKernel.Expr

variable (h : Sends calls calls' file file' names target)
include h

/-- Storing an initializer. -/
theorem storeInit_sent (hctx : ctx.functions = file.functions) (cell : Cell) (e : Expr)
    (he : e.Everywhere (Sendable names target ctx file')) :
    (storeInit .implicit calls ctx cell e).Below
      (storeInit .implicit calls' (ctx.withFunctions file') cell
        (e.rebuild (sendCall target))) := by
  fun_induction storeInit .implicit calls ctx cell e with
  | case1 e c ih =>
    simp only [Expr.rebuild_initList, sendCall, List.map_cons, List.map_nil, storeInit]
    exact ih ((everywhere_initList.1 he).2 e (List.mem_singleton_self e))
  | case2 e hsingle =>
    cases hbraced : e.isBraced with
    | true =>
      cases e with
      | initList items c => exact matched_stuck _
      | _ => cases hbraced
    | false =>
      rw [storeInit_eq ((isBraced_sent e).trans hbraced)]
      exact (eval_sent h hctx e he).bind fun v => below_refl _

theorem storeItems_sent (hctx : ctx.functions = file.functions) (b : Binding) (i : Nat)
    (items : List Expr) (hitems : ∀ e ∈ items, e.Everywhere (Sendable names target ctx file')) :
    (storeItems .implicit calls ctx b i items).Below
      (storeItems .implicit calls' (ctx.withFunctions file') b i
        (items.map (Expr.rebuild (sendCall target)))) := by
  induction items generalizing i with
  | nil => exact below_refl _
  | cons e rest ih =>
    obtain ⟨he, hrest⟩ := List.forall_mem_cons.1 hitems
    exact (storeInit_sent h hctx _ e he).bind fun _ => ih (i + 1) hrest

/-- Giving a variable its first value. -/
theorem runInit_sent (hctx : ctx.functions = file.functions) (d : Decl) (b : Binding)
    (hinits : ∀ e ∈ d.initExprs, e.Everywhere (Sendable names target ctx file')) :
    (d.runInit .implicit calls ctx b).Below
      ((d.rebuild (sendCall target)).runInit .implicit calls' (ctx.withFunctions file') b) := by
  have hinit' := init_rebuild (sendCall target) d
  cases hinit : d.init with
  | none =>
    rw [hinit] at hinit'
    simp only [runInit, hinit, hinit', Option.map_none]
    exact below_refl _
  | some e =>
    rw [hinit, Option.map_some] at hinit'
    cases hbraced : e.isBraced with
    | true =>
      cases e with
      | initList items c =>
        simp only [initExprs, hinit] at hinits
        have hstore := storeInit_sent h hctx b.cell _ (sendable_initList c hinits)
        simp only [Expr.rebuild_initList, sendCall] at hinit' hstore
        simp only [runInit, hinit, hinit']
        exact matched_ite (matched_bind _ fun _ => storeItems_sent h hctx b 0 items hinits) hstore
      | _ => cases hbraced
    | false =>
      rw [initExprs_of_not_braced hinit hbraced] at hinits
      have he := hinits e (List.mem_singleton_self e)
      rw [runInit_of_not_braced hinit hbraced,
        runInit_of_not_braced hinit' ((isBraced_sent e).trans hbraced)]
      refine matched_ite ?_ (storeInit_sent h hctx b.cell e he)
      rcases sent_cases ctx h .implicit (everywhere_iff.1 he).1.callee with
        ⟨-, htext⟩ | ⟨-, -, htext⟩
      · rw [htext]
        exact below_refl _
      · rw [htext]
        exact matched_stuck _

theorem evalSize_sent (hctx : ctx.functions = file.functions) (d : Decl)
    (hsize : ∀ e ∈ d.size?, e.Everywhere (Sendable names target ctx file')) :
    (d.evalSize .implicit calls ctx).Below
      ((d.rebuild (sendCall target)).evalSize .implicit calls' (ctx.withFunctions file')) := by
  unfold evalSize
  rw [size?_rebuild]
  cases hd : d.size? with
  | none => exact below_refl _
  | some e => exact (eval_sent h hctx e (hsize e hd)).bind fun v => below_refl _

/-- A declaration runs below its new form. -/
theorem run_sent (hctx : ctx.functions = file.functions) {d : Decl}
    (hrepeats : d.repeatsFunction file)
    (hexprs : ∀ x ∈ d.exprsIn ctx, x.2.Everywhere (Sendable names target x.1 file')) :
    (d.run .implicit calls ctx).Below
      ((d.rebuild (sendCall target)).run .implicit calls' (ctx.withFunctions file')) := by
  obtain ⟨hdeclare, hfunctions⟩ :=
    Context.declare_withFunctions hctx (fun _ _ => h.known) hrepeats
  simp only [exprsIn, List.forall_mem_append, List.forall_mem_map] at hexprs
  obtain ⟨hsize, hinits⟩ := hexprs
  have hdeclare' : (ctx.withFunctions file').declare (d.rebuild (sendCall target)) =
      (ctx.declare d).withFunctions file' := (declare_rebuild _ d _).trans hdeclare
  have hrunInit (b : Binding) := runInit_sent h hfunctions d b hinits
  have hrunSize := evalSize_sent h hctx d (by simpa using hsize)
  have hname : (d.rebuild (sendCall target)).name = d.name := rfl
  have hstatic : (d.rebuild (sendCall target)).isStatic = d.isStatic := rfl
  unfold run
  rw [hname, hdeclare', Context.binding?_withFunctions, isFunction_rebuild, hstatic]
  cases d.name.bind (ctx.declare d).binding? with
  | none => exact below_refl _
  | some b =>
    refine matched_ite (below_refl _) (hrunSize.bind fun _ => ?_)
    split
    · exact matched_bind _ fun _ => matched_ite (below_refl _)
        ((hrunInit _).bind fun _ => below_refl _)
    · exact hrunInit _

/-- Declarations run below their new forms, and declare the same names. -/
theorem runList_sent (ds : List Decl) (ctx : Context) (hctx : ctx.functions = file.functions)
    (hrepeats : ∀ d ∈ ds, d.repeatsFunction file)
    (hexprs : ∀ x ∈ exprsInList ctx ds, x.2.Everywhere (Sendable names target x.1 file')) :
    (runList .implicit calls ctx ds).Below
        (runList .implicit calls' (ctx.withFunctions file')
          (ds.map (Decl.rebuild (sendCall target)))) ∧
      (ds.map (Decl.rebuild (sendCall target))).foldl Context.declare (ctx.withFunctions file') =
        (ds.foldl Context.declare ctx).withFunctions file' ∧
      (ds.foldl Context.declare ctx).functions = file.functions := by
  induction ds generalizing ctx with
  | nil => exact ⟨below_refl _, rfl, hctx⟩
  | cons d rest ih =>
    obtain ⟨hd, hrest⟩ := List.forall_mem_cons.1 hrepeats
    obtain ⟨hexprsd, hexprsrest⟩ := List.forall_mem_append.1 hexprs
    obtain ⟨hdeclare, hfunctions⟩ := Context.declare_withFunctions hctx (fun _ _ => h.known) hd
    rw [← declare_rebuild (sendCall target)] at hdeclare
    obtain ⟨hrun, hafter, hafterFunctions⟩ := ih (ctx.declare d) hfunctions hrest hexprsrest
    rw [List.map_cons, List.foldl_cons, List.foldl_cons, runList, runList, hdeclare]
    exact ⟨(run_sent h hctx hd hexprsd).bind fun _ => hrun, hafter, hafterFunctions⟩

end Decl

/-! ### Statements -/

/-- The functions that statements declare repeat those of a file. -/
def Stmt.RepeatFunctions (file : Context) (stmts : List Stmt) : Prop :=
  ∀ s ∈ stmts, ∀ d ∈ s.ownDecls, d.repeatsFunction file

/-- The code of a statement is below that of its new form, which declares the same names. -/
structure Stmt.CodeBelow (calls calls' : Calls) (file file' : Context)
    (target : String → Option String) (result : ScalarType) (ctx : Context) (s : Stmt) : Prop where
  code : (s.code .implicit calls result ctx).Below
    ((s.rebuild (Expr.sendCall target)).code .implicit calls' result (ctx.withFunctions file'))
  after : (s.rebuild (Expr.sendCall target)).after (ctx.withFunctions file') =
    (s.after ctx).withFunctions file'
  functions : (s.after ctx).functions = file.functions

section Statements

open MathKernel.Expr

/-- An initializer clause. -/
theorem ForInit.run_sent (h : Sends calls calls' file file' names target)
    (hctx : ctx.functions = file.functions) (init : Option ForInit)
    (hrepeats : ∀ d ∈ init.toList.flatMap ForInit.declList, d.repeatsFunction file)
    (hexprs : ∀ x ∈ ForInit.exprsIn ctx init, x.2.Everywhere (Sendable names target x.1 file')) :
    (ForInit.run .implicit calls ctx init).Below
        (ForInit.run .implicit calls' (ctx.withFunctions file')
          (ForInit.rebuild (sendCall target) init)) ∧
      ForInit.after (ctx.withFunctions file') (ForInit.rebuild (sendCall target) init) =
        (ForInit.after ctx init).withFunctions file' ∧
      (ForInit.after ctx init).functions = file.functions := by
  match init with
  | none => exact ⟨below_refl _, rfl, hctx⟩
  | some (.decls ds) =>
    rw [ForInit.rebuild_decls]
    exact Decl.runList_sent h ds ctx hctx (by simpa [ForInit.declList] using hrepeats) hexprs
  | some (.expr e) =>
    have he := hexprs (ctx, e) (List.mem_singleton_self _)
    exact ⟨(eval_sent h hctx e he).bind fun _ => below_refl _, rfl, hctx⟩

namespace Stmt

variable (h : Sends calls calls' file file' names target)
include h

theorem evalTest_sent (hctx : ctx.functions = file.functions) {e : Expr}
    (he : e.Everywhere (Sendable names target ctx file')) :
    (e.evalTest .implicit calls ctx).Below
      ((e.rebuild (sendCall target)).evalTest .implicit calls' (ctx.withFunctions file')) :=
  (eval_sent h hctx e he).bind fun _ => below_refl _

theorem evalForTest_sent (hctx : ctx.functions = file.functions) {cond : Option Expr}
    (hcond : ∀ e ∈ cond, e.Everywhere (Sendable names target ctx file')) :
    (evalForTest .implicit calls ctx cond).Below
      (evalForTest .implicit calls' (ctx.withFunctions file')
        (cond.map (Expr.rebuild (sendCall target)))) := by
  cases cond with
  | none => exact below_refl _
  | some e => exact evalTest_sent h hctx (hcond e rfl)

theorem evalNext_sent (hctx : ctx.functions = file.functions) {next : Option Expr}
    (hnext : ∀ e ∈ next, e.Everywhere (Sendable names target ctx file')) :
    (evalNext .implicit calls ctx next).Below
      (evalNext .implicit calls' (ctx.withFunctions file')
        (next.map (Expr.rebuild (sendCall target)))) := by
  cases next with
  | none => exact below_refl _
  | some e => exact (eval_sent h hctx e (hnext e rfl)).bind fun _ => below_refl _

theorem evalReturn_sent (result : ScalarType) (hctx : ctx.functions = file.functions)
    {value : Option Expr}
    (hvalue : ∀ e ∈ value, e.Everywhere (Sendable names target ctx file')) :
    (evalReturn .implicit calls result ctx value).Below
      (evalReturn .implicit calls' result (ctx.withFunctions file')
        (value.map (Expr.rebuild (sendCall target)))) := by
  cases value with
  | none => exact below_refl _
  | some e => exact (eval_sent h hctx e (hvalue e rfl)).bind fun v => below_refl _

omit h

variable (result : ScalarType)

mutual

/-- The code of a statement is below that of its new form. -/
theorem code_sent (h : Sends calls calls' file file' names target) (s : Stmt) (ctx : Context)
    (hctx : ctx.functions = file.functions) (hrepeats : RepeatFunctions file s.substmts)
    (hexprs : ∀ x ∈ s.exprsIn ctx, x.2.Everywhere (Sendable names target x.1 file')) :
    CodeBelow calls calls' file file' target result ctx s := by
  have hinner : RepeatFunctions file s.substmts.tail :=
    fun t ht => hrepeats t (List.mem_of_mem_tail ht)
  cases s with
  | decl d c =>
    have hd : d.repeatsFunction file :=
      hrepeats (.decl d c) (by simp [substmts]) d (by simp [ownDecls])
    obtain ⟨hdeclare, hfunctions⟩ := Context.declare_withFunctions hctx (fun _ _ => h.known) hd
    rw [← Decl.declare_rebuild (sendCall target)] at hdeclare
    exact ⟨.act (Decl.run_sent h hctx hd hexprs), hdeclare, hfunctions⟩
  | block items b c =>
    obtain ⟨hcode, hafter, -⟩ := codeList_sent h items ctx hctx hinner hexprs
    refine ⟨?_, ?_, hctx⟩
    · rw [rebuild_block]
      exact .block hcode
    · rw [rebuild_block, after, after, hafter]
      rfl
  | expr e c =>
    have he := hexprs (ctx, e) (List.mem_singleton_self _)
    exact ⟨.act ((eval_sent h hctx e he).bind fun _ => below_refl _), rfl, hctx⟩
  | ifThen p t c =>
    obtain ⟨hp, ht⟩ := List.forall_mem_cons.1 hexprs
    have ht := code_sent h t ctx hctx hinner ht
    exact ⟨.branch (evalTest_sent h hctx hp) ht.code (.act (below_refl _)), ht.after,
      ht.functions⟩
  | ifElse p t e c =>
    obtain ⟨hp, hbranches⟩ := List.forall_mem_cons.1 hexprs
    obtain ⟨ht, he⟩ := List.forall_mem_append.1 hbranches
    obtain ⟨hrepeatst, hrepeatse⟩ := List.forall_mem_append.1 hinner
    -- The second branch stands in the context that the first one leaves.
    have ht := code_sent h t ctx hctx hrepeatst ht
    have he := code_sent h e (t.after ctx) ht.functions hrepeatse he
    have hcode := he.code
    rw [← ht.after] at hcode
    refine ⟨.branch (evalTest_sent h hctx hp) ht.code hcode, ?_, he.functions⟩
    rw [rebuild_ifElse, after, after, ht.after, he.after]
  | forLoop init cond next body c =>
    simp only [exprsIn, List.map_append, List.forall_mem_append, List.forall_mem_map] at hexprs
    obtain ⟨⟨hinit, hcond, hnext⟩, hbody⟩ := hexprs
    obtain ⟨hrun, hafter, hfunctions⟩ := ForInit.run_sent h hctx init
      (hrepeats (.forLoop init cond next body c) (by simp [substmts])) hinit
    have hbody := code_sent h body _ hfunctions hinner hbody
    have hcond := evalForTest_sent h hfunctions (by simpa using hcond)
    have hnext := evalNext_sent h hfunctions (by simpa using hnext)
    have hcode := Code.Below.loop hrun hcond hnext hbody.code
    rw [← hafter] at hcode
    refine ⟨?_, ?_, hctx⟩
    · rw [rebuild_forLoop]
      exact hcode
    · rw [rebuild_forLoop, after, after, hafter, hbody.after]
      rfl
  | whileLoop p body c =>
    obtain ⟨hp, hbody⟩ := List.forall_mem_cons.1 hexprs
    have hbody := code_sent h body ctx hctx hinner hbody
    exact ⟨.loop (below_refl _) (evalTest_sent h hctx hp) (below_refl _) hbody.code, hbody.after,
      hbody.functions⟩
  | doWhile p body c =>
    obtain ⟨hp, hbody⟩ := List.forall_mem_cons.1 hexprs
    have hbody := code_sent h body ctx hctx hinner hbody
    exact ⟨.loopLast hbody.code (evalTest_sent h hctx hp), hbody.after, hbody.functions⟩
  | ret value c =>
    have hvalue := evalReturn_sent h result hctx (by simpa [exprsIn] using hexprs)
    rw [← mapOptionM_rebuild] at hvalue
    exact ⟨.ret hvalue, rfl, hctx⟩
  | label n s c =>
    have hs := code_sent h s ctx hctx hinner hexprs
    exact ⟨.label n hs.code, hs.after, hs.functions⟩
  | brk c => exact ⟨.brk, rfl, hctx⟩
  | cont c => exact ⟨.cont, rfl, hctx⟩
  | goto l c => exact ⟨.goto l, rfl, hctx⟩
  | empty c => exact ⟨.act (below_refl _), rfl, hctx⟩

/-- The code of statements is below that of their new forms. -/
theorem codeList_sent (h : Sends calls calls' file file' names target) (items : List Stmt)
    (ctx : Context) (hctx : ctx.functions = file.functions)
    (hrepeats : RepeatFunctions file (substmtsList items))
    (hexprs : ∀ x ∈ exprsInList ctx items, x.2.Everywhere (Sendable names target x.1 file')) :
    Code.BelowList (codeList .implicit calls result ctx items)
        (codeList .implicit calls' result (ctx.withFunctions file')
          (items.map (Stmt.rebuild (sendCall target)))) ∧
      afterList (ctx.withFunctions file') (items.map (Stmt.rebuild (sendCall target))) =
        (afterList ctx items).withFunctions file' ∧
      (afterList ctx items).functions = file.functions := by
  cases items with
  | nil => exact ⟨.nil, rfl, hctx⟩
  | cons s rest =>
    obtain ⟨hexprss, hexprsrest⟩ := List.forall_mem_append.1 hexprs
    obtain ⟨hrepeatss, hrepeatsrest⟩ := List.forall_mem_append.1 hrepeats
    have hs := code_sent h s ctx hctx hrepeatss hexprss
    obtain ⟨hcode, hafter, hfunctions⟩ :=
      codeList_sent h rest (s.after ctx) hs.functions hrepeatsrest hexprsrest
    rw [List.map_cons, codeList, codeList, afterList, afterList, hs.after]
    exact ⟨.cons hs.code hcode, hafter, hfunctions⟩

end

end Stmt

end Statements

/-! ### The expressions of a body -/

section Expressions

open MathKernel.Expr

variable {p : Expr → Prop}

/-- What is known of an expression and of the context that it is evaluated in. -/
def EvaluatedIn (file : Context) (p : Expr → Prop) (x : Context × Expr) : Prop :=
  x.1.functions = file.functions ∧ x.2.Everywhere p

theorem Context.functions_declare (hctx : ctx.functions = file.functions) {d : Decl}
    (h : d.repeatsFunction file) : (ctx.declare d).functions = file.functions :=
  (declare_withFunctions hctx (fun _ _ h => h) h).2

theorem Decl.evaluatedIn_exprsIn (hctx : ctx.functions = file.functions) {d : Decl}
    (hrepeats : d.repeatsFunction file) (h : ∀ e ∈ d.rootExprs, e.Everywhere p) :
    ∀ x ∈ d.exprsIn ctx, EvaluatedIn file p x := by
  have hfunctions := Context.functions_declare hctx hrepeats
  simp only [rootExprs, List.forall_mem_append, Option.mem_toList] at h
  simp only [exprsIn, List.forall_mem_append, List.forall_mem_map, Option.mem_toList]
  refine ⟨fun e he => ⟨hctx, h.1 e he⟩, fun e he => ⟨hfunctions, ?_⟩⟩
  unfold initExprs at he
  split at he
  · cases he
  · next items c hinit => exact (everywhere_initList.1 (h.2 _ hinit)).2 e he
  · next e' _ hinit =>
    obtain rfl := List.mem_singleton.1 he
    exact h.2 _ hinit

theorem Decl.evaluatedIn_exprsInList (ds : List Decl) (ctx : Context)
    (hctx : ctx.functions = file.functions) (hrepeats : ∀ d ∈ ds, d.repeatsFunction file)
    (h : ∀ e ∈ ds.flatMap Decl.rootExprs, e.Everywhere p) :
    (∀ x ∈ exprsInList ctx ds, EvaluatedIn file p x) ∧
      (ds.foldl Context.declare ctx).functions = file.functions := by
  induction ds generalizing ctx with
  | nil => exact ⟨List.forall_mem_nil _, hctx⟩
  | cons d rest ih =>
    rw [List.flatMap_cons, List.forall_mem_append] at h
    obtain ⟨hd, hrest⟩ := List.forall_mem_cons.1 hrepeats
    obtain ⟨hexprs, hafter⟩ := ih _ (Context.functions_declare hctx hd) hrest h.2
    exact ⟨List.forall_mem_append.2 ⟨evaluatedIn_exprsIn hctx hd h.1, hexprs⟩, hafter⟩

theorem ForInit.evaluatedIn_exprsIn (init : Option ForInit) (hctx : ctx.functions = file.functions)
    (hrepeats : ∀ d ∈ init.toList.flatMap ForInit.declList, d.repeatsFunction file)
    (h : ∀ e ∈ init.toList.flatMap ForInit.rootExprs, e.Everywhere p) :
    (∀ x ∈ exprsIn ctx init, EvaluatedIn file p x) ∧
      (after ctx init).functions = file.functions := by
  match init with
  | none => exact ⟨List.forall_mem_nil _, hctx⟩
  | some (.decls ds) =>
    exact Decl.evaluatedIn_exprsInList ds ctx hctx (by simpa [ForInit.declList] using hrepeats)
      (by simpa [ForInit.rootExprs] using h)
  | some (.expr e) =>
    exact ⟨List.forall_mem_singleton.2 ⟨hctx, h e (by simp [ForInit.rootExprs])⟩, hctx⟩

namespace Stmt

mutual

/-- What holds everywhere in the expressions of a statement holds where they are evaluated, and the
functions that are known there are those of the file. -/
theorem evaluatedIn_exprsIn (s : Stmt) (ctx : Context) (hctx : ctx.functions = file.functions)
    (hrepeats : RepeatFunctions file s.substmts)
    (h : ∀ t ∈ s.substmts, ∀ e ∈ t.ownExprs, e.Everywhere p) :
    (∀ x ∈ s.exprsIn ctx, EvaluatedIn file p x) ∧ (s.after ctx).functions = file.functions := by
  have hself : s ∈ s.substmts := by cases s <;> simp [substmts]
  have hinner : ∀ t ∈ s.substmts.tail, ∀ e ∈ t.ownExprs, e.Everywhere p :=
    fun t ht => h t (List.mem_of_mem_tail ht)
  have hinnerRepeats : RepeatFunctions file s.substmts.tail :=
    fun t ht => hrepeats t (List.mem_of_mem_tail ht)
  have hown : ∀ e ∈ s.ownExprs, e.Everywhere p := h s hself
  cases s with
  | decl d c =>
    have hd := hrepeats _ hself d (List.mem_singleton_self d)
    exact ⟨Decl.evaluatedIn_exprsIn hctx hd hown, Context.functions_declare hctx hd⟩
  | block items b c => exact ⟨(evaluatedIn_exprsInList items ctx hctx hinnerRepeats hinner).1, hctx⟩
  | expr e c => exact ⟨List.forall_mem_singleton.2 ⟨hctx, hown e (List.mem_singleton_self e)⟩, hctx⟩
  | ifThen q t c =>
    obtain ⟨ht, hafter⟩ := evaluatedIn_exprsIn t ctx hctx hinnerRepeats hinner
    exact ⟨List.forall_mem_cons.2 ⟨⟨hctx, hown q (List.mem_singleton_self q)⟩, ht⟩, hafter⟩
  | ifElse q t e c =>
    obtain ⟨ht, he⟩ := List.forall_mem_append.1 hinner
    obtain ⟨hrepeatst, hrepeatse⟩ := List.forall_mem_append.1 hinnerRepeats
    obtain ⟨ht, hafter⟩ := evaluatedIn_exprsIn t ctx hctx hrepeatst ht
    obtain ⟨he, hafter'⟩ := evaluatedIn_exprsIn e _ hafter hrepeatse he
    exact ⟨List.forall_mem_cons.2 ⟨⟨hctx, hown q (List.mem_singleton_self q)⟩,
      List.forall_mem_append.2 ⟨ht, he⟩⟩, hafter'⟩
  | forLoop init cond next body c =>
    simp only [ownExprs, List.forall_mem_append, Option.mem_toList] at hown
    obtain ⟨hinit, hafter⟩ := ForInit.evaluatedIn_exprsIn init hctx (hrepeats _ hself) hown.1.1
    obtain ⟨hbody, -⟩ := evaluatedIn_exprsIn body _ hafter hinnerRepeats hinner
    simp only [exprsIn, List.map_append, List.forall_mem_append, List.forall_mem_map,
      Option.mem_toList]
    exact ⟨⟨⟨hinit, fun e he => ⟨hafter, hown.1.2 e he⟩, fun e he => ⟨hafter, hown.2 e he⟩⟩,
      hbody⟩, hctx⟩
  | whileLoop q body c =>
    obtain ⟨hbody, hafter⟩ := evaluatedIn_exprsIn body ctx hctx hinnerRepeats hinner
    exact ⟨List.forall_mem_cons.2 ⟨⟨hctx, hown q (List.mem_singleton_self q)⟩, hbody⟩, hafter⟩
  | doWhile q body c =>
    obtain ⟨hbody, hafter⟩ := evaluatedIn_exprsIn body ctx hctx hinnerRepeats hinner
    exact ⟨List.forall_mem_cons.2 ⟨⟨hctx, hown q (List.mem_singleton_self q)⟩, hbody⟩, hafter⟩
  | ret value c =>
    simp only [exprsIn, List.forall_mem_map]
    exact ⟨fun e he => ⟨hctx, hown e he⟩, hctx⟩
  | label n s c => exact evaluatedIn_exprsIn s ctx hctx hinnerRepeats hinner
  | brk | cont | goto | empty => exact ⟨List.forall_mem_nil _, hctx⟩

theorem evaluatedIn_exprsInList (items : List Stmt) (ctx : Context)
    (hctx : ctx.functions = file.functions) (hrepeats : RepeatFunctions file (substmtsList items))
    (h : ∀ t ∈ substmtsList items, ∀ e ∈ t.ownExprs, e.Everywhere p) :
    (∀ x ∈ exprsInList ctx items, EvaluatedIn file p x) ∧
      (afterList ctx items).functions = file.functions := by
  cases items with
  | nil => exact ⟨List.forall_mem_nil _, hctx⟩
  | cons s rest =>
    obtain ⟨hs, hrest⟩ := List.forall_mem_append.1 h
    obtain ⟨hrepeatss, hrepeatsrest⟩ := List.forall_mem_append.1 hrepeats
    obtain ⟨hs, hafter⟩ := evaluatedIn_exprsIn s ctx hctx hrepeatss hs
    obtain ⟨hrest, hafter'⟩ := evaluatedIn_exprsInList rest _ hafter hrepeatsrest hrest
    exact ⟨List.forall_mem_append.2 ⟨hs, hrest⟩, hafter'⟩

end

end Stmt

end Expressions

/-! ### Activations -/

/-- An activation of a function whose calls are sent to functions that do what the called ones do
runs below that of the function with its new body. -/
theorem FuncDef.activate_sent {calls calls' : Nat → Calls} (hvars : file'.vars = file.vars)
    (h : ∀ base, Sends (calls base) (calls' base) file file' names target) {f f' : FuncDef}
    (hparams : f'.params = f.params) (hresult : f'.returnType = f.returnType)
    (hbody : f'.body = f.body.rebuild (Expr.sendCall target))
    (hrepeats : Stmt.RepeatFunctions file f.body.stmts)
    (hexprs : ∀ ctx : Context, ctx.functions = file.functions →
      ctx.typeEnv = f.params.foldl TypeEnv.declare file.typeEnv →
      ∀ x ∈ Stmt.exprsInList ctx f.body.items,
        x.2.Everywhere (Expr.Sendable names target x.1 file'))
    (fuel base : Nat) (args : List Argument) :
    (f.activate .implicit file calls fuel base args).Below
      (f'.activate .implicit file' calls' fuel base args) := by
  have hstatic : f'.body.decls.any Decl.isStatic = f.body.decls.any Decl.isStatic := by
    rw [hbody, Block.decls_rebuild, List.any_map]
    rfl
  have hitems : f'.body.items = f.body.items.map (Stmt.rebuild (Expr.sendCall target)) := by
    rw [hbody]
    exact Stmt.mapExprsListM_rebuild _ f.body.items
  have hstart : ({ file' with slots := base } : Context) =
      ({ file with slots := base } : Context).withFunctions file' := by
    rw [Context.withFunctions, ← hvars]
  unfold activate
  rw [hstatic, hparams, hresult, hitems, hstart, Context.enterAll_withFunctions]
  refine matched_ite (matched_stuck _) ?_
  simp only [bind_assoc, pure_bind]
  refine (Context.returns_enterAll f.params args).matched_bind fun ctx hctx => ?_
  obtain ⟨hcode, hafter, -⟩ := Stmt.codeList_sent f.returnType
    (h (Stmt.afterList ctx f.body.items).slots) f.body.items ctx hctx.1 hrepeats
    (hexprs ctx hctx.1 hctx.2)
  rw [hafter]
  exact (Task.run_below (.block hcode) fuel (.cons (.code (.block hcode)) .nil)).bind fun _ =>
    below_refl _

end MathKernel
