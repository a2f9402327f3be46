import MathKernel.Proofs.Normalize.FoldedParities
import MathKernel.Proofs.Normalize.FoldedRuns

/-!
# Code of bodies with folded tests of the lowest bit

Where true and false are identified with one and zero, the converted form of a body has the same
code when its tests of the lowest bit are folded: every expression and every declaration does the
same to the memory. The types of names have to be the same to an initializer and to what follows its
declaration, and the array has to stand first in a subscripted expression. The body need not be well
typed, and may call any function. It may declare functions that the file does not have, which the
conversion knows nothing about.

## Main definitions

* `TypeEnv.IsInBody` — what a conversion knows at a place in a body
* `Context.LeadsTo` — the contexts and types after a part of a body and after its converted form

## Main results

* `Stmt.leadsTo_coerced` — what converted statements declare
* `Decl.run_folded` — declarations
* `Stmt.code_folded` — the code of statements
-/

namespace MathKernel

open MathKernel.Action Scalar

variable {calls : MathKernel.Calls} {ctx : Context} {file env : TypeEnv}

/-! ### Environments of bodies -/

theorem Decl.agreesWith_congr {env env' : TypeEnv} (h : env.functions = env'.functions) (d : Decl) :
    d.agreesWith env = d.agreesWith env' := by
  have hsignature : env.signature? = env'.signature? := by
    unfold TypeEnv.signature?
    rw [h]
  rw [agreesWith, agreesWith, hsignature]

/-- A declaration keeps an environment a part of the context, unless it gives other types to a
function that the environment knows. -/
theorem TypeEnv.IsPartOf.declare (h : env.IsPartOf ctx) {d : Decl} (hd : d.agreesWith env) :
    (env.declare d).IsPartOf (ctx.declare d) := by
  unfold TypeEnv.declare Context.declare
  cases hname : d.name with
  | none => exact h
  | some name =>
    cases hs : Signature.ofDecl? d with
    | none =>
      dsimp only
      split <;> exact ⟨congrArg ((name, d.scalar) :: ·) h.vars, h.functions⟩
    | some s =>
      obtain ⟨hfunction, hresult⟩ := Signature.of_ofDecl? hs
      refine ⟨?_, fun name' s' (hs' : env.signature? name' = some s') => ?_⟩
      · exact congrArg₂ (fun t vars => (name, t) :: vars) hresult.symm h.vars
      · have hknown := h.functions name' s' hs'
        change (ctx.declareFunction name s).functions.lookup name' = some s'
        rw [Context.declareFunction]
        split
        · exact hknown
        · next hnew =>
          rw [List.lookup_cons]
          cases heq : name' == name with
          | false => exact hknown
          | true =>
            -- The function is in the environment with these types, so it is no new one.
            rw [beq_iff_eq] at heq
            subst heq
            have hsame : s = s' := by
              simpa [Decl.agreesWith, hfunction, hname, hs, hs'] using hd
            exact absurd (hsame ▸ hknown) hnew

/-- An environment in a body of a file, whose functions are those of the file. -/
structure TypeEnv.IsInBody (env file : TypeEnv) (ctx : Context) : Prop
    extends env.IsPartOf ctx where
  functions_eq : env.functions = file.functions

theorem TypeEnv.IsInBody.declare (h : env.IsInBody file ctx) {d : Decl} (hd : d.agreesWith file) :
    (env.declare d).IsInBody file (ctx.declare d) where
  toIsPartOf := by
    refine h.toIsPartOf.declare ?_
    rwa [Decl.agreesWith_congr h.functions_eq]
  functions_eq := (env.functions_declare d).trans h.functions_eq

theorem TypeEnv.IsInBody.leave (h : env.IsInBody file ctx) (inner : Context) :
    env.IsInBody file (ctx.leave inner) :=
  ⟨⟨h.vars, h.functions⟩, h.functions_eq⟩

/-- A part of a body leads to a context, and its conversion to an environment of the body there. The
converted form of the rebuilt part leads to the same. -/
structure Context.LeadsTo (file : TypeEnv) (after after' : Context) (env env' : TypeEnv) : Prop
    extends env.IsInBody file after where
  after_eq : after' = after
  env_eq : env' = env

/-- The folded call is known all over a body. -/
theorem FoldsParity.of_isInBody {env' : TypeEnv} {ctx' : Context} (h : FoldsParity calls env ctx)
    (hfile : env.functions = file.functions) (hin : env'.IsInBody file ctx') :
    FoldsParity calls env' ctx' where
  toIsPartOf := hin.toIsPartOf
  converts := by
    have hsignature : env'.signature? = env.signature? := by
      funext name
      rw [TypeEnv.signature?, TypeEnv.signature?, hin.functions_eq, hfile]
    exact ⟨hsignature ▸ h.converts.conversion, hsignature ▸ h.converts.remainder⟩
  signature := by
    rw [TypeEnv.signature?, hin.functions_eq, ← hfile]
    exact h.signature
  call := h.call

/-! ### Declarations -/

namespace Expr

theorem isBraced_coerced {e : Expr} (h : e.isBraced = false) (env : TypeEnv) :
    (e.coerced env).value.isBraced = false := by
  obtain ⟨again, -, heq⟩ := coerced_eq env e
  rw [heq, isBraced_coercedWith, h]

theorem isBraced_coercedAs {e : Expr} (h : e.isBraced = false) (env : TypeEnv) (t : ScalarType) :
    (e.coercedAs env t).value.isBraced = false := by
  have hbraced := isBraced_coerced h env
  simp only [coercedAs, Counted.value_bind]
  rcases coerce_eq_or_isValue ⟨[], [], 0⟩ (e.typeIn env) t (e.coerced env).value with heq | hvalue
  · rw [heq, hbraced]
  · exact hvalue.braced

end Expr

namespace Decl

theorem keepsTypes_congr {env env' : TypeEnv} (h : env.vars = env'.vars) (d : Decl) :
    d.keepsTypes env = d.keepsTypes env' := by
  funext e
  simp only [keepsTypes, TypeEnv.variableType, h]

/-- A declaration runs as another one that declares the same, if the sizes and the initializers do
the same. -/
theorem run_congr {rules : Rules} {d d' : Decl} (hname : d'.name = d.name)
    (hdeclare : ctx.declare d' = ctx.declare d) (hfunction : d'.isFunction = d.isFunction)
    (hexternal : d'.isExternal = d.isExternal) (hstatic : d'.isStatic = d.isStatic)
    (hsize : d'.evalSize rules calls ctx = d.evalSize rules calls ctx)
    (hinit : ∀ b,
      d'.runInit rules calls (ctx.declare d) b = d.runInit rules calls (ctx.declare d) b) :
    d'.run rules calls ctx = d.run rules calls ctx := by
  simp only [run, hname, hdeclare, hfunction, hexternal, hstatic, hsize, hinit]

theorem runInit_congr {rules : Rules} {d d' : Decl} (hinit : d'.init = d.init)
    (hstatic : d'.isStatic = d.isStatic) (b : Binding) :
    d'.runInit rules calls ctx b = d.runInit rules calls ctx b := by
  simp only [runInit, hinit, hstatic]

theorem coercedInit_rebuild (g : Expr → Expr) (env : TypeEnv) (d : Decl) :
    (d.rebuild g).coercedInit env =
      coercedInit env { d with init := d.init.map (Expr.rebuild g) } := by
  simp only [coercedInit, init_rebuild, scalar_rebuild, isArray_rebuild]
  rfl

theorem storeInit_alike {e e' : Expr} (h : Expr.EvalAlike calls ctx e' e)
    (hbraced : e.isBraced = false) (hbraced' : e'.isBraced = false) (cell : Cell) :
    storeInit .identified calls ctx cell e' = storeInit .identified calls ctx cell e := by
  rw [storeInit_eq hbraced, storeInit_eq hbraced']
  exact h.bind_eq (fun v => by rw [store_number]) fun v => rfl

/-- A single value is stored, or a text is put into an array. -/
theorem runInit_alike {e e' : Expr} (h : e'.Alike calls ctx e) (hbraced : e.isBraced = false)
    (hbraced' : e'.isBraced = false) (d : Decl) (b : Binding) :
    runInit .identified calls ctx { d with init := some e' } b =
      runInit .identified calls ctx { d with init := some e } b := by
  rw [runInit_of_not_braced (d := { d with init := some e' }) rfl hbraced',
    runInit_of_not_braced (d := { d with init := some e }) rfl hbraced, h.text,
    storeInit_alike h.eval hbraced hbraced']

section Folded

variable (hodd : FoldsParity calls env ctx)
include hodd

/-- Storing a converted initializer, which may be in braces. -/
theorem storeInit_coerced {again again' : Expr → Counted Expr}
    (hagain : Expr.Combines env again) (hagain' : Expr.Combines env again')
    (cell : Cell) (e : Expr) (hfirst : e.Everywhere (·.arrayFirst ctx)) :
    storeInit .identified calls ctx cell
        (e.foldedOdd.coercedWith again env false).value =
      storeInit .identified calls ctx cell (e.coercedWith again' env false).value := by
  cases hbraced : e.isBraced with
  | false =>
    refine storeInit_alike
      (Expr.standsFor_coercedWith hodd hagain hagain' false e hfirst).alike.eval ?_ ?_ cell
    · rw [Expr.isBraced_coercedWith, hbraced]
    · rw [Expr.isBraced_coercedWith, Expr.isBraced_foldedOdd, hbraced]
  | true =>
    cases e with
    | initList items c =>
      rw [Expr.foldedOdd_initList]
      match items with
      | [] => rfl
      | [e] =>
        exact storeInit_coerced hagain hagain' cell e
          ((Expr.everywhere_initList.1 hfirst).2 e (List.mem_singleton_self e))
      | _ :: _ :: _ => rfl
    | _ => cases hbraced

/-- Storing an initializer in the type of its variable. Braces around an expression are kept where
there is no conversion. -/
theorem storeInit_coercedAs_folded (cell : Cell) (t : ScalarType) {e : Expr}
    (hfirst : e.Everywhere (·.arrayFirst ctx)) :
    storeInit .identified calls ctx cell (e.foldedOdd.coercedAs env t).value =
      storeInit .identified calls ctx cell (e.coercedAs env t).value := by
  have heval := (Expr.alike_coercedAs hodd hfirst t).eval
  cases hbraced : e.isBraced with
  | false =>
    have hbraced' : e.foldedOdd.isBraced = false := (Expr.isBraced_foldedOdd e).trans hbraced
    exact storeInit_alike heval (Expr.isBraced_coercedAs hbraced _ t)
      (Expr.isBraced_coercedAs hbraced' _ t) cell
  | true =>
    obtain ⟨again, hagain, heq⟩ := Expr.coerced_eq env e.foldedOdd
    obtain ⟨again', hagain', heq'⟩ := Expr.coerced_eq env e
    have htype : e.foldedOdd.typeIn env = e.typeIn env := by
      cases e with
      | initList items c =>
        rw [Expr.foldedOdd_initList]
        rfl
      | _ => cases hbraced
    simp only [Expr.coercedAs, Counted.value_bind, heq, heq', htype] at heval ⊢
    by_cases hkeeps : e.typeIn env = t ∨ e.typeIn env = .void ∨ t = .void
    · simp only [Expr.coerce, if_pos hkeeps]
      exact storeInit_coerced hodd hagain hagain' cell e hfirst
    · have hplain (x : Expr) : (x.coerce (e.typeIn env) t).value.IsValue ctx :=
        Expr.isValue_coerce_of_ne hkeeps x
      exact storeInit_alike heval (hplain _).braced (hplain _).braced cell

/-- Storing converted items. -/
theorem storeItems_folded (b : Binding) (t : ScalarType) (i : Nat) (items : List Expr)
    (hfirst : ∀ e ∈ items, e.Everywhere (·.arrayFirst ctx)) :
    storeItems .identified calls ctx b i
        (Expr.coercedItems env t (items.map Expr.foldedOdd)).value =
      storeItems .identified calls ctx b i (Expr.coercedItems env t items).value := by
  induction items generalizing i with
  | nil => rfl
  | cons e rest ih =>
    obtain ⟨he, hrest⟩ := List.forall_mem_cons.1 hfirst
    simp only [List.map_cons, Expr.coercedItems, Counted.value_bind, Counted.value_pure, storeItems]
    rw [storeInit_coercedAs_folded hodd _ t he, ih (i + 1) hrest]

/-- Giving a variable its first value. -/
theorem runInit_folded (b : Binding) (d : Decl) (init : Option Expr)
    (hfirst : ∀ e ∈ initExprs { d with init }, e.Everywhere (·.arrayFirst ctx)) :
    runInit .identified calls ctx { d with
        init := (coercedInit env { d with init := init.map Expr.foldedOdd }).value } b =
      runInit .identified calls ctx
        { d with init := (coercedInit env { d with init }).value } b := by
  cases init with
  | none => rfl
  | some e =>
    cases hbraced : e.isBraced with
    | true =>
      cases e with
      | initList items c =>
        have hitems := storeItems_folded hodd b d.scalar 0 items hfirst
        have hsingle (e : Expr) (he : e ∈ items) :=
          storeInit_coercedAs_folded hodd b.cell d.scalar (hfirst e he)
        rw [Option.map_some, Expr.foldedOdd_initList]
        simp only [runInit, coercedInit, Counted.value_bind, Counted.value_pure]
        split
        · exact congrArg (zero b.place >>= fun _ => ·) hitems
        · rcases items with _ | ⟨e, _ | ⟨_, _⟩⟩
          · rfl
          · exact hsingle e (List.mem_singleton_self e)
          · rfl
      | _ => cases hbraced
    | false =>
      rw [initExprs_of_not_braced rfl hbraced] at hfirst
      have he := hfirst e (List.mem_singleton_self e)
      have hbraced' : e.foldedOdd.isBraced = false := (Expr.isBraced_foldedOdd e).trans hbraced
      rw [Option.map_some, coercedInit_of_not_braced d hbraced,
        coercedInit_of_not_braced d hbraced']
      cases d.isArray with
      | true =>
        exact runInit_alike (Expr.standsFor_coerced hodd he).alike
          (Expr.isBraced_coerced hbraced _) (Expr.isBraced_coerced hbraced' _) d b
      | false =>
        exact runInit_alike (Expr.alike_coercedAs hodd he d.scalar)
          (Expr.isBraced_coercedAs hbraced _ _) (Expr.isBraced_coercedAs hbraced' _ _) d b

/-- The size of an array, in which nothing is converted. -/
theorem evalSize_folded (d : Decl) :
    ((d.rebuild Expr.oddNode).coerced env).value.evalSize .identified calls ctx =
      (d.coerced env).value.evalSize .identified calls ctx := by
  change evalSize _ _ _ (d.rebuild Expr.oddNode) = evalSize _ _ _ d
  rw [evalSize, evalSize, size?_rebuild]
  cases d.size? with
  | none => rfl
  | some e =>
    exact (Expr.standsFor_foldedOdd hodd.knowsParity e).alike.eval.bind_eq
      (fun v => by rw [Rules.expect?_number]) fun v => rfl

/-- A converted declaration does the same when its tests are folded. -/
theorem run_folded (hfile : env.functions = file.functions) {d : Decl}
    (hnames : d.keepsNames file ctx)
    (hfirst : ∀ x ∈ d.exprsIn ctx, x.2.Everywhere (·.arrayFirst x.1)) :
    ((d.rebuild Expr.oddNode).coerced env).value.run .identified calls ctx =
      (d.coerced env).value.run .identified calls ctx := by
  rw [keepsNames, Bool.and_eq_true] at hnames
  obtain ⟨hagrees, hkeeps⟩ := hnames
  replace hkeeps : d.init.all (d.keepsTypes env) := by
    rwa [keepsTypes_congr hodd.vars]
  have hdeclare : ctx.declare ((d.rebuild Expr.oddNode).coerced env).value =
      ctx.declare d := declare_rebuild Expr.oddNode d ctx
  have hplain := coercedInit_declare (g := id) (fun h => h) hkeeps
  have hfolded := coercedInit_declare (g := Expr.foldedOdd)
    (Expr.ids_idioms Expr.operandBelow_oddOperand?) hkeeps
  rw [Option.map_id_apply] at hplain
  have hfirst' : ∀ e ∈ d.initExprs, e.Everywhere (·.arrayFirst (ctx.declare d)) := fun e he =>
    hfirst (ctx.declare d, e) (List.mem_append_right _ (List.mem_map_of_mem he))
  refine run_congr rfl hdeclare (isFunction_rebuild _ d) rfl rfl (evalSize_folded hodd d)
    fun b => ?_
  -- The initializer is converted by the types before the declaration and run by those after it.
  have hin : env.IsInBody file ctx := ⟨hodd.toIsPartOf, hfile⟩
  have hinit := runInit_folded (hodd.of_isInBody hfile (hin.declare hagrees)) b d d.init hfirst'
  rw [← hplain, ← hfolded] at hinit
  calc runInit .identified calls (ctx.declare d)
        ((d.rebuild Expr.oddNode).coerced env).value b
    _ = runInit .identified calls (ctx.declare d) { d with
        init := (coercedInit env
          { d with init := d.init.map Expr.foldedOdd }).value } b := by
      refine runInit_congr ?_ ?_ b
      · exact congrArg Counted.value (coercedInit_rebuild Expr.oddNode env d)
      · rfl
    _ = runInit .identified calls (ctx.declare d) (d.coerced env).value b := hinit

end Folded

end Decl

/-! ### What converted statements declare -/

section Declared

variable (g : Expr → Expr) (result : ScalarType)

theorem TypeEnv.declare_rebuild (env : TypeEnv) (d : Decl) :
    env.declare (d.rebuild g) = env.declare d := by
  rw [declare, declare, Decl.scalar_rebuild]
  rfl

namespace Decl

theorem leadsTo_coerced (hin : env.IsInBody file ctx) {d : Decl} (h : d.agreesWith file) :
    Context.LeadsTo file (ctx.declare d) (ctx.declare ((d.rebuild g).coerced env).value)
      (env.declare d) (env.declare (d.rebuild g)) where
  toIsInBody := hin.declare h
  after_eq := declare_rebuild g d ctx
  env_eq := TypeEnv.declare_rebuild g env d

theorem leadsTo_coercedList (ds : List Decl) (hin : env.IsInBody file ctx)
    (h : ∀ x ∈ declsIn ctx ds, x.2.agreesWith file) :
    Context.LeadsTo file (ds.foldl Context.declare ctx)
      ((coercedList env (ds.map (rebuild g))).value.1.foldl Context.declare ctx)
      (coercedList env ds).value.2 (coercedList env (ds.map (rebuild g))).value.2 := by
  induction ds generalizing ctx env with
  | nil => exact ⟨hin, rfl, rfl⟩
  | cons d rest ih =>
    obtain ⟨hd, hrest⟩ := List.forall_mem_cons.1 h
    obtain ⟨hin', hafter, henv⟩ := leadsTo_coerced g hin hd
    simp only [List.map_cons, coercedList, Counted.value_bind, Counted.value_pure, List.foldl_cons,
      hafter, henv]
    exact ih hin' hrest

end Decl

theorem ForInit.leadsTo_coerced (init : Option ForInit) (hin : env.IsInBody file ctx)
    (h : ∀ x ∈ ForInit.declsIn ctx init, x.2.agreesWith file) :
    Context.LeadsTo file (ForInit.after ctx init)
      (ForInit.after ctx (ForInit.coerced env (ForInit.rebuild g init)).value.1)
      (ForInit.coerced env init).value.2
      (ForInit.coerced env (ForInit.rebuild g init)).value.2 := by
  match init with
  | none | some (.expr e) => exact ⟨hin, rfl, rfl⟩
  | some (.decls ds) =>
    rw [ForInit.rebuild_decls]
    exact Decl.leadsTo_coercedList g ds hin h

namespace Stmt

mutual

/-- A converted statement declares what the statement does, and the conversion knows its types. -/
theorem leadsTo_coerced (s : Stmt) (ctx : Context) (env : TypeEnv) (hin : env.IsInBody file ctx)
    (h : ∀ x ∈ s.declsIn ctx, x.2.agreesWith file) :
    Context.LeadsTo file (s.after ctx) (((s.rebuild g).coerced result env).value.1.after ctx)
      (s.coerced result env).value.2 ((s.rebuild g).coerced result env).value.2 := by
  cases s with
  | decl d c => exact Decl.leadsTo_coerced g hin (h (ctx, d) (List.mem_singleton_self _))
  | block items b c =>
    rw [rebuild_block]
    have hafter := (leadsTo_coercedList items ctx env hin h).after_eq
    exact ⟨hin.leave _, congrArg ctx.leave hafter, rfl⟩
  | ifThen p t c => exact leadsTo_coerced t ctx env hin h
  | ifElse p t e c =>
    obtain ⟨ht, he⟩ := List.forall_mem_append.1 h
    obtain ⟨hin', hafter, henv⟩ := leadsTo_coerced t ctx env hin ht
    have helse := leadsTo_coerced e (t.after ctx) _ hin' he
    simp only [rebuild_ifElse, coerced, Counted.value_bind, Counted.value_pure, after, hafter, henv]
    exact helse
  | forLoop init cond next body c =>
    obtain ⟨hinit, hbody⟩ := List.forall_mem_append.1 h
    obtain ⟨hin', hafter, henv⟩ := ForInit.leadsTo_coerced g init hin hinit
    obtain ⟨-, hafter', -⟩ := leadsTo_coerced body (ForInit.after ctx init) _ hin' hbody
    rw [rebuild_forLoop]
    simp only [coerced, Counted.value_bind, Counted.value_pure, after, hafter, henv, hafter']
    exact ⟨hin.leave _, rfl, rfl⟩
  | whileLoop p body c | doWhile p body c => exact leadsTo_coerced body ctx env hin h
  | label n s c => exact leadsTo_coerced s ctx env hin h
  | expr | ret | brk | cont | goto | empty => exact ⟨hin, rfl, rfl⟩

/-- Converted statements declare what the statements do. -/
theorem leadsTo_coercedList (items : List Stmt) (ctx : Context) (env : TypeEnv)
    (hin : env.IsInBody file ctx) (h : ∀ x ∈ declsInList ctx items, x.2.agreesWith file) :
    Context.LeadsTo file (afterList ctx items)
      (afterList ctx (coercedList result env (items.map (rebuild g))).value.1)
      (coercedList result env items).value.2
      (coercedList result env (items.map (rebuild g))).value.2 := by
  cases items with
  | nil => exact ⟨hin, rfl, rfl⟩
  | cons s rest =>
    obtain ⟨hs, hrest⟩ := List.forall_mem_append.1 h
    obtain ⟨hin', hafter, henv⟩ := leadsTo_coerced s ctx env hin hs
    have hothers := leadsTo_coercedList rest (s.after ctx) _ hin' hrest
    simp only [List.map_cons, coercedList, Counted.value_bind, Counted.value_pure, afterList,
      hafter, henv]
    exact hothers

end

end Stmt

end Declared

/-! ### Code -/

namespace Decl

theorem agreesWith_of_keepsNames {d : Decl} (h : d.keepsNames file ctx) : d.agreesWith file := by
  rw [keepsNames, Bool.and_eq_true] at h
  exact h.1

theorem rebuild_id (d : Decl) : d.rebuild (fun e => e) = d :=
  mapExprsM_eq_pure (m := Id) fun e _ => e.rebuild_id

end Decl

theorem ForInit.rebuild_id (init : Option ForInit) : ForInit.rebuild (fun e => e) init = init :=
  mapExprsM_eq_pure (m := Id) init fun e _ => e.rebuild_id

theorem Stmt.rebuild_id (s : Stmt) : s.rebuild (fun e => e) = s :=
  mapExprsM_eq_pure (m := Id) s fun _ _ e _ => e.rebuild_id

/-- Both converted forms of an initializer clause lead to where it leads. -/
theorem ForInit.leadsTo_folded (hin : env.IsInBody file ctx) {init : Option ForInit}
    (h : ∀ x ∈ ForInit.declsIn ctx init, x.2.keepsNames file x.1) :
    ForInit.after ctx (ForInit.coerced env init).value.1 = ForInit.after ctx init ∧
      Context.LeadsTo file (ForInit.after ctx init)
        (ForInit.after ctx (ForInit.coerced env (ForInit.rebuild Expr.oddNode init)).value.1)
        (ForInit.coerced env init).value.2
        (ForInit.coerced env (ForInit.rebuild Expr.oddNode init)).value.2 := by
  have hagrees x hx := Decl.agreesWith_of_keepsNames (h x hx)
  have hplain := ForInit.leadsTo_coerced (fun e => e) init hin hagrees
  rw [rebuild_id] at hplain
  exact ⟨hplain.after_eq, ForInit.leadsTo_coerced Expr.oddNode init hin hagrees⟩

/-- Both converted forms of a statement lead to where it leads. -/
theorem Stmt.leadsTo_folded (result : ScalarType) (hin : env.IsInBody file ctx) {s : Stmt}
    (h : ∀ x ∈ s.declsIn ctx, x.2.keepsNames file x.1) :
    (s.coerced result env).value.1.after ctx = s.after ctx ∧
      Context.LeadsTo file (s.after ctx)
        (((s.rebuild Expr.oddNode).coerced result env).value.1.after ctx)
        (s.coerced result env).value.2
        ((s.rebuild Expr.oddNode).coerced result env).value.2 := by
  have hagrees x hx := Decl.agreesWith_of_keepsNames (h x hx)
  have hplain := leadsTo_coerced (fun e => e) result s ctx env hin hagrees
  rw [rebuild_id] at hplain
  exact ⟨hplain.after_eq, leadsTo_coerced Expr.oddNode result s ctx env hin hagrees⟩

/-- A condition is not told from one that is alike. -/
theorem Expr.EvalAlike.evalTest {e e' : Expr} (h : EvalAlike calls ctx e e') :
    e.evalTest .identified calls ctx = e'.evalTest .identified calls ctx :=
  h.bind_eq (fun v => by rw [Rules.condition?_number]) fun _ => rfl

theorem Expr.EvalAlike.evalNext {e e' : Expr} (h : EvalAlike calls ctx e e') :
    Stmt.evalNext .identified calls ctx (some e) = Stmt.evalNext .identified calls ctx (some e') :=
  h.bind_eq (fun _ => rfl) fun _ => rfl

section Folded

variable (result : ScalarType) (hodd : FoldsParity calls env ctx)
include hodd

/-- Converted declarations in order. -/
theorem Decl.runList_folded (hfile : env.functions = file.functions) (ds : List Decl)
    (hnames : ∀ x ∈ declsIn ctx ds, x.2.keepsNames file x.1)
    (hfirst : ∀ x ∈ exprsInList ctx ds, x.2.Everywhere (·.arrayFirst x.1)) :
    runList .identified calls ctx (coercedList env (ds.map (rebuild Expr.oddNode))).value.1 =
      runList .identified calls ctx (coercedList env ds).value.1 := by
  induction ds generalizing ctx env with
  | nil => rfl
  | cons d rest ih =>
    obtain ⟨hd, hrest⟩ := List.forall_mem_cons.1 hnames
    obtain ⟨hfirst, hfirstRest⟩ := List.forall_mem_append.1 hfirst
    have hrun := run_folded hodd hfile hd hfirst
    have hin := (TypeEnv.IsInBody.mk hodd.toIsPartOf hfile).declare (agreesWith_of_keepsNames hd)
    have hothers := ih (hodd.of_isInBody hfile hin) hin.functions_eq hrest hfirstRest
    have hdeclare : env.declare (d.rebuild Expr.oddNode) = env.declare d := env.declare_rebuild _ d
    have hafter : ctx.declare ((d.rebuild Expr.oddNode).coerced env).value = ctx.declare d :=
      declare_rebuild Expr.oddNode d ctx
    simp only [List.map_cons, coercedList, Counted.value_bind, Counted.value_pure, runList, hrun,
      hdeclare, hafter, declare_coerced, hothers]

/-- A converted initializer clause. -/
theorem ForInit.run_folded (hfile : env.functions = file.functions) (init : Option ForInit)
    (hnames : ∀ x ∈ ForInit.declsIn ctx init, x.2.keepsNames file x.1)
    (hfirst : ∀ x ∈ ForInit.exprsIn ctx init, x.2.Everywhere (·.arrayFirst x.1)) :
    ForInit.run .identified calls ctx
        (ForInit.coerced env (ForInit.rebuild Expr.oddNode init)).value.1 =
      ForInit.run .identified calls ctx (ForInit.coerced env init).value.1 := by
  match init with
  | none => rfl
  | some (.decls ds) =>
    rw [ForInit.rebuild_decls]
    exact Decl.runList_folded hodd hfile ds hnames hfirst
  | some (.expr e) =>
    have he := hfirst (ctx, e) (List.mem_singleton_self _)
    exact (Expr.standsFor_coerced hodd he).alike.eval.evalNext

namespace Stmt

theorem evalReturn_folded (value : Option Expr)
    (hfirst : ∀ e ∈ value, e.Everywhere (·.arrayFirst ctx)) :
    evalReturn .identified calls result ctx
        (mapOptionM (Expr.coercedAs env result) (value.map Expr.foldedOdd)).value =
      evalReturn .identified calls result ctx
        (mapOptionM (Expr.coercedAs env result) value).value := by
  cases value with
  | none => rfl
  | some e =>
    exact (Expr.alike_coercedAs hodd (hfirst e rfl) result).eval.bind_eq
      (fun v => by rw [Rules.expect?_number]) fun _ => rfl

theorem evalTest_folded {p : Expr} (hfirst : p.Everywhere (·.arrayFirst ctx)) :
    (p.foldedOdd.coercedAs env .bool).value.evalTest .identified calls ctx =
      (p.coercedAs env .bool).value.evalTest .identified calls ctx :=
  (Expr.alike_coercedAs hodd hfirst .bool).eval.evalTest

theorem evalForTest_folded (cond : Option Expr)
    (hfirst : ∀ e ∈ cond, e.Everywhere (·.arrayFirst ctx)) :
    evalForTest .identified calls ctx
        (mapOptionM (Expr.coercedAs env .bool) (cond.map Expr.foldedOdd)).value =
      evalForTest .identified calls ctx
        (mapOptionM (Expr.coercedAs env .bool) cond).value := by
  cases cond with
  | none => rfl
  | some e => exact evalTest_folded hodd (hfirst e rfl)

theorem evalNext_folded (next : Option Expr)
    (hfirst : ∀ e ∈ next, e.Everywhere (·.arrayFirst ctx)) :
    evalNext .identified calls ctx
        (mapOptionM (Expr.coerced env) (next.map Expr.foldedOdd)).value =
      evalNext .identified calls ctx (mapOptionM (Expr.coerced env) next).value := by
  cases next with
  | none => rfl
  | some e => exact (Expr.standsFor_coerced hodd (hfirst e rfl)).alike.eval.evalNext

omit hodd

mutual

/-- A converted statement has the same code when its tests are folded. -/
theorem code_folded (s : Stmt) (ctx : Context) (env : TypeEnv) (hodd : FoldsParity calls env ctx)
    (hfile : env.functions = file.functions) (hnames : ∀ x ∈ s.declsIn ctx, x.2.keepsNames file x.1)
    (hfirst : ∀ x ∈ s.exprsIn ctx, x.2.Everywhere (·.arrayFirst x.1)) :
    ((s.rebuild Expr.oddNode).coerced result env).value.1.code .identified calls result ctx =
      (s.coerced result env).value.1.code .identified calls result ctx := by
  cases s with
  | decl d c =>
    exact congrArg Code.act
      (Decl.run_folded hodd hfile (hnames (ctx, d) (List.mem_singleton_self _)) hfirst)
  | block items b c =>
    rw [rebuild_block]
    exact congrArg Code.block (codeList_folded items ctx env hodd hfile hnames hfirst)
  | expr e c =>
    have he := hfirst (ctx, e) (List.mem_singleton_self _)
    exact congrArg Code.act (Expr.standsFor_coerced hodd he).alike.eval.evalNext
  | ifThen p t c =>
    obtain ⟨hp, ht⟩ := List.forall_mem_cons.1 hfirst
    exact congrArg₂ (Code.branch · · _) (evalTest_folded hodd hp)
      (code_folded t ctx env hodd hfile hnames ht)
  | ifElse p t e c =>
    obtain ⟨hp, hbranches⟩ := List.forall_mem_cons.1 hfirst
    obtain ⟨ht, he⟩ := List.forall_mem_append.1 hbranches
    obtain ⟨hnamest, hnamese⟩ := List.forall_mem_append.1 hnames
    have htest := evalTest_folded hodd hp
    have hthen := code_folded t ctx env hodd hfile hnamest ht
    -- Both converted forms go on from the context that the first branch leaves.
    obtain ⟨hafter', hin, hafter, henv⟩ := leadsTo_folded result ⟨hodd.toIsPartOf, hfile⟩ hnamest
    have helse := code_folded e (t.after ctx) _ (hodd.of_isInBody hfile hin) hin.functions_eq
      hnamese he
    rw [rebuild_ifElse]
    simp only [coerced, Counted.value_bind, Counted.value_pure, code, hafter, hafter', henv, hthen,
      helse]
    exact congrArg (Code.branch · _ _) htest
  | forLoop init cond next body c =>
    simp only [exprsIn, List.map_append, List.forall_mem_append, List.forall_mem_map] at hfirst
    obtain ⟨⟨hinit, hcond, hnext⟩, hbody⟩ := hfirst
    obtain ⟨hnamesi, hnamesb⟩ := List.forall_mem_append.1 hnames
    -- The condition, the step and the body know what the clause declares.
    obtain ⟨hafter', hin, hafter, henv⟩ := ForInit.leadsTo_folded ⟨hodd.toIsPartOf, hfile⟩ hnamesi
    have hodd' := hodd.of_isInBody hfile hin
    have hrun := ForInit.run_folded hodd hfile init hnamesi hinit
    have htest := evalForTest_folded hodd' cond (by simpa using hcond)
    have hstep := evalNext_folded hodd' next (by simpa using hnext)
    have hcode := code_folded body (ForInit.after ctx init) _ hodd' hin.functions_eq hnamesb hbody
    rw [rebuild_forLoop]
    simp only [coerced, Counted.value_bind, Counted.value_pure, code, hafter, hafter', henv, hrun,
      hcode]
    exact congrArg₂ (Code.loop _ · · _) htest hstep
  | whileLoop p body c =>
    obtain ⟨hp, hbody⟩ := List.forall_mem_cons.1 hfirst
    exact congrArg₂ (Code.loop _ · _ ·) (evalTest_folded hodd hp)
      (code_folded body ctx env hodd hfile hnames hbody)
  | doWhile p body c =>
    obtain ⟨hp, hbody⟩ := List.forall_mem_cons.1 hfirst
    exact congrArg₂ Code.loopLast (code_folded body ctx env hodd hfile hnames hbody)
      (evalTest_folded hodd hp)
  | ret value c =>
    have hvalue := evalReturn_folded result hodd value (by simpa [exprsIn] using hfirst)
    have hmap : mapOptionM (m := Id) (Expr.rebuild Expr.oddNode) value =
        value.map Expr.foldedOdd := mapOptionM_rebuild Expr.oddNode value
    rw [← hmap] at hvalue
    exact congrArg Code.ret hvalue
  | label n s c =>
    exact congrArg (Code.label n) (code_folded s ctx env hodd hfile hnames hfirst)
  | brk | cont | goto | empty => rfl

/-- Converted statements have the same code when their tests are folded. -/
theorem codeList_folded (items : List Stmt) (ctx : Context) (env : TypeEnv)
    (hodd : FoldsParity calls env ctx) (hfile : env.functions = file.functions)
    (hnames : ∀ x ∈ declsInList ctx items, x.2.keepsNames file x.1)
    (hfirst : ∀ x ∈ exprsInList ctx items, x.2.Everywhere (·.arrayFirst x.1)) :
    codeList .identified calls result ctx
        (coercedList result env (items.map (rebuild Expr.oddNode))).value.1 =
      codeList .identified calls result ctx (coercedList result env items).value.1 := by
  cases items with
  | nil => rfl
  | cons s rest =>
    obtain ⟨hs, hrest⟩ := List.forall_mem_append.1 hfirst
    obtain ⟨hnamess, hnamesrest⟩ := List.forall_mem_append.1 hnames
    obtain ⟨hafter', hin, hafter, henv⟩ := leadsTo_folded result ⟨hodd.toIsPartOf, hfile⟩ hnamess
    have hcode := code_folded s ctx env hodd hfile hnamess hs
    have hrestCode := codeList_folded rest (s.after ctx) _ (hodd.of_isInBody hfile hin)
      hin.functions_eq hnamesrest hrest
    simp only [List.map_cons, coercedList, Counted.value_bind, Counted.value_pure, codeList, hafter,
      hafter', henv, hcode, hrestCode]

end

end Stmt

end Folded

end MathKernel
