import MathKernel.Proofs.Normalize.CoercedExpressions
import MathKernel.Proofs.Normalize.CoercionFrame
import MathKernel.Proofs.Syntax.Recordings

/-!
# Code of converted bodies

Converting the expressions of a well-typed body turns its code by the implicit rules into the same
code by the explicit rules: every expression and every declaration does the same to the memory. The
expressions may be rebuilt before they are converted, by a function that keeps what they come to.

## Main definitions

* `Expr.ConvertsTo` — the converted forms of an expression have the values of another one
* `Prepares` — a function that expressions may be rebuilt by
* `Stmt.SameCode` — a statement and its converted form have the same code

## Main results

* `prepares_id` — expressions may be left as they are
* `Decl.run_coerced` — declarations
* `Stmt.code_coerced` — the code of statements
-/

namespace MathKernel

open MathKernel.Action Scalar

variable {calls : Calls} {ctx : Context} {quiet : List String}

/-! ### Expressions in their places -/

namespace Expr

/-- The converted forms of `e'` evaluate by the explicit rules as `e` does by the implicit
rules. -/
structure ConvertsTo (calls : Calls) (ctx : Context) (e e' : Expr) : Prop where
  value : e'.IsValue ctx
  effects : ((e'.coerced ctx.typeEnv).value.eval .explicit calls ctx >>= fun _ => pure ()) =
    e.eval .implicit calls ctx >>= fun _ => pure ()
  follows {t : ScalarType} : e.ctype ctx ≠ .void → t ≠ .void →
    Follows (e.typeIn ctx.typeEnv) (convert t)
      ((e'.coercedAs ctx.typeEnv t).value.eval .explicit calls ctx) (e.eval .implicit calls ctx)

theorem convertsTo_self (hconv : ctx.Converts) (hcalls : calls.QuietOn quiet) {e : Expr}
    (h : e.wellTyped quiet ctx) : e.ConvertsTo calls ctx e where
  value := isValue_of_wellTyped h
  effects := ((evaluates_coerced hconv hcalls h).follows rfl).bind_eq fun _ _ => rfl
  follows hvoid ht := follows_coercedAs hconv hcalls h hvoid ht

/-- A converted condition holds where the condition does. -/
theorem ConvertsTo.evalTest {e e' : Expr} (h : e.ConvertsTo calls ctx e')
    (hvoid : e.ctype ctx ≠ .void) :
    (e'.coercedAs ctx.typeEnv .bool).value.evalTest .explicit calls ctx =
      e.evalTest .implicit calls ctx :=
  (h.follows hvoid (by simp)).bind_eq fun v _ => rfl

end Expr

/-- The expressions of bodies that know the given functions may be rebuilt by `g` before they are
converted. -/
structure Prepares (calls : Calls) (quiet : List String) (functions : List (String × Signature))
    (P : Context → Expr → Prop) (g : Expr → Expr) : Prop where
  quietOn : calls.QuietOn quiet
  converts {ctx : Context} : ctx.functions = functions → ctx.Converts
  rebuild {ctx : Context} {e : Expr} : ctx.functions = functions → e.wellTyped quiet ctx →
    P ctx e → e.ConvertsTo calls ctx (e.rebuild g)
  ids {e : Expr} {name : String} : name ∈ (e.rebuild g).ids → name ∈ e.ids
  initList (items : List Expr) (c : Coord) : g (.initList items c) = .initList items c
  literal (value : Literal) (c : Coord) : g (.literal value c) = .literal value c

theorem Context.Converts.of_functions_eq {ctx' : Context} (h : ctx.Converts)
    (heq : ctx'.functions = ctx.functions) : ctx'.Converts := by
  have hsignature : ctx'.signature? = ctx.signature? := by
    funext name
    rw [Context.signature?, Context.signature?, heq]
  exact ⟨fun t ht => by rw [hsignature, h.conversion t ht], by rw [hsignature, h.remainder]⟩

/-- Nothing has to be rebuilt. -/
theorem prepares_id (hconv : ctx.Converts) (hcalls : calls.QuietOn quiet) :
    Prepares calls quiet ctx.functions (fun _ _ => True) fun e => e where
  quietOn := hcalls
  converts := hconv.of_functions_eq
  rebuild hfunctions hwell _ := by
    rw [Expr.rebuild_id]
    exact Expr.convertsTo_self (hconv.of_functions_eq hfunctions) hcalls hwell
  ids := by simp [Expr.rebuild_id]
  initList _ _ := rfl
  literal _ _ := rfl

/-! ### Declarations -/

namespace Decl

theorem storeInit_eq {e : Expr} (h : e.isBraced = false) (rules : Rules) (cell : Cell) :
    storeInit rules calls ctx cell e =
      e.eval rules calls ctx >>= fun v => store rules cell v >>= fun _ => pure () := by
  cases e with
  | initList items c => cases h
  | _ => rfl

/-- Storing a converted initializer. -/
theorem storeInit_coercedAs (hconv : ctx.Converts) {e e' : Expr} (hwell : e.wellTyped quiet ctx)
    (h : e.ConvertsTo calls ctx e') (hvoid : e.ctype ctx ≠ .void) {t : ScalarType}
    (ht : t ≠ .void) (cell : Cell) (hcell : cell.type = t) :
    storeInit .explicit calls ctx cell (e'.coercedAs ctx.typeEnv t).value =
      storeInit .implicit calls ctx cell e := by
  rw [storeInit_eq (Expr.isValue_coercedAs h.value _ t).braced, storeInit_eq
    (Expr.isValue_of_wellTyped hwell).braced]
  refine (h.follows hvoid ht).bind_eq fun v hv => ?_
  rw [Expr.store_convert hcell hv (Expr.typeIn_ne_void hconv hwell hvoid)]

/-- The parts of a declaration by the form of its initializer. -/
theorem wellTypedInit_of_not_braced {d : Decl} {e : Expr} (hinit : d.init = some e)
    (he : e.isBraced = false) :
    d.wellTypedInit quiet ctx =
      if d.isArray then e.text?.isSome else e.wellTyped quiet ctx && e.ctype ctx != .void := by
  rw [wellTypedInit, hinit]
  cases e with
  | initList items c => cases he
  | _ => rfl

theorem coercedInit_of_not_braced (d : Decl) {e : Expr} (he : e.isBraced = false) (env : TypeEnv) :
    (coercedInit env { d with init := some e }).value =
      some (if d.isArray then (e.coerced env).value else (e.coercedAs env d.scalar).value) := by
  cases e with
  | initList items c => cases he
  | _ =>
    change (if d.isArray then _ else _ : Counted (Option Expr)).value = _
    cases d.isArray <;> rfl

theorem runInit_of_not_braced {d : Decl} {e : Expr} (hinit : d.init = some e)
    (he : e.isBraced = false) (rules : Rules) (b : Binding) :
    d.runInit rules calls ctx b =
      if b.isArray then
        match e.text? with
        | some text => zero b.place >>= fun _ => storeCodes b 0 (textCodes text.toList)
        | none => .stuck
      else storeInit rules calls ctx b.cell e := by
  rw [runInit, hinit]
  cases e with
  | initList items c => cases he
  | _ => rfl

theorem exists_literal_of_text? {e : Expr} {text : String} (h : e.text? = some text) :
    ∃ c, e = .literal ⟨.string, text⟩ c := by
  unfold Expr.text? at h
  split at h <;> cases h
  exact ⟨_, rfl⟩

/-- A declaration whose size is kept is rebuilt in its initializer only. -/
theorem rebuild_of_size {d : Decl} {g : Expr → Expr} (h : ∀ e ∈ d.size?, e.rebuild g = e) :
    d.rebuild g = { d with init := d.init.map (Expr.rebuild g) } := by
  have htype : d.type.mapSizeM (m := Id) (Expr.rebuild g) = d.type := by
    obtain ⟨name, quals, storage, type, init, c⟩ := d
    cases type with
    | array item size c =>
      cases size with
      | none => rfl
      | some e => exact congrArg (Declarator.array item · c) (congrArg some (h e rfl))
    | element | function => rfl
  calc d.rebuild g = { d with
          type := d.type.mapSizeM (m := Id) (Expr.rebuild g)
          init := mapOptionM (m := Id) (Expr.rebuild g) d.init } := rfl
    _ = { d with init := d.init.map (Expr.rebuild g) } := by rw [htype, mapOptionM_rebuild]

@[simp] theorem ofDecl?_rebuild (g : Expr → Expr) (d : Decl) :
    Signature.ofDecl? (d.rebuild g) = Signature.ofDecl? d := by
  obtain ⟨name, quals, storage, type, init, c⟩ := d
  cases type <;> rfl

/-- What a declaration declares does not depend on the expressions in it. -/
theorem declare_rebuild (g : Expr → Expr) (d : Decl) (ctx : Context) :
    ctx.declare (d.rebuild g) = ctx.declare d := by
  simp only [Context.declare, ofDecl?_rebuild, scalar_rebuild, isArray_rebuild]
  rfl

theorem initExprs_of_not_braced {d : Decl} {e : Expr} (hinit : d.init = some e)
    (he : e.isBraced = false) : d.initExprs = [e] := by
  rw [initExprs, hinit]
  cases e with
  | initList items c => cases he
  | _ => rfl

/-- A size that needs no conversions is evaluated the same by both sets of rules. -/
theorem evalSize_eq (hconv : ctx.Converts) (hcalls : calls.QuietOn quiet) {d : Decl}
    (h : d.wellTypedSize quiet ctx) :
    d.evalSize .explicit calls ctx = d.evalSize .implicit calls ctx := by
  unfold wellTypedSize at h
  unfold evalSize
  cases hsize : d.size? with
  | none => rfl
  | some e =>
    rw [hsize, Option.all_some, Expr.wellTypedTest] at h
    simp only [Bool.and_eq_true, bne_iff_ne, beq_iff_eq] at h
    obtain ⟨⟨hwell, hvoid⟩, hcount⟩ := h
    have hfollows := Expr.follows_coercedAs hconv hcalls hwell hvoid (t := .int) (by simp)
    rw [Expr.coercedAs_leaves ctx.typeEnv .int e hcount] at hfollows
    refine hfollows.bind_eq fun v hv => ?_
    rw [Rules.explicit_expect?_convert hv (Expr.typeIn_ne_void hconv hwell hvoid)]

/-- An initializer whose names keep their types is converted the same in both environments. -/
theorem coercedInit_congr {d : Decl} {env env' : TypeEnv} (henv : env.functions = env'.functions)
    (h : ∀ e, d.init = some e → e.SameTypes env env') : d.coercedInit env = d.coercedInit env' := by
  cases hinit : d.init with
  | none => simp only [coercedInit, hinit]
  | some e =>
    have he := h e hinit
    cases e with
    | initList items c =>
      obtain ⟨-, hitems⟩ := Expr.everywhere_initList.1 he
      simp only [coercedInit, hinit, Expr.coercedItems_congr henv d.scalar items hitems]
    | _ =>
      simp only [coercedInit, hinit, Expr.coerced_congr henv he,
        Expr.coercedAs_congr henv d.scalar he]

/-- Declaring a variable keeps the types of the names in an expression. -/
theorem sameTypes_of_keepsTypes {env : TypeEnv} {d : Decl} {e : Expr} (h : d.keepsTypes env e) :
    e.SameTypes env (env.declare d) := by
  intro s hs name hname
  unfold keepsTypes at h
  cases hdname : d.name with
  | none => simp only [TypeEnv.declare, hdname]
  | some declared =>
    simp only [hdname, Option.all_some, Bool.or_eq_true, Bool.not_eq_true', beq_iff_eq] at h
    simp only [TypeEnv.declare, hdname, TypeEnv.variableType, List.lookup_cons]
    by_cases heq : name = declared
    · subst heq
      have hmem : name ∈ e.ids := List.mem_filterMap.2 ⟨s, hs, hname⟩
      have htype := h.resolve_left (by simp [hmem])
      rw [BEq.rfl]
      exact htype
    · rw [beq_eq_false_iff_ne.2 heq]

end Decl

namespace Context

/-- A declared variable is bound with its type. -/
theorem binding?_declare {d : Decl} {name : String} (hname : d.name = some name)
    (h : d.isFunction = false) (ctx : Context) :
    ∃ b, (ctx.declare d).binding? name = some b ∧ b.type = d.scalar ∧ b.isArray = d.isArray := by
  unfold declare
  rw [hname, Signature.ofDecl?_eq_none h]
  dsimp only
  split
  · exact ⟨_, List.lookup_cons_self, rfl, rfl⟩
  · exact ⟨_, List.lookup_cons_self, rfl, rfl⟩

/-- Declaring a variable, or a function again, declares its type and keeps the functions. -/
theorem typeEnv_declare {d : Decl} (h : d.repeatsFunction ctx) :
    (ctx.declare d).typeEnv = ctx.typeEnv.declare d ∧
      (ctx.declare d).functions = ctx.functions := by
  unfold declare TypeEnv.declare
  cases hname : d.name with
  | none => exact ⟨rfl, rfl⟩
  | some name =>
    cases hs : Signature.ofDecl? d with
    | none =>
      dsimp only
      split <;> exact ⟨rfl, rfl⟩
    | some s =>
      obtain ⟨hfunction, hresult⟩ := Signature.of_ofDecl? hs
      have hknown : ctx.signature? name = some s := by
        simpa [Decl.repeatsFunction, hfunction, hname, hs] using h
      simp only [declareFunction, hknown, if_true, hresult, and_true]
      rfl

end Context

namespace Decl

@[simp] theorem value_coerced (env : TypeEnv) (d : Decl) :
    (d.coerced env).value = { d with init := (d.coercedInit env).value } := rfl

@[simp] theorem declare_coerced (env : TypeEnv) (d : Decl) (ctx : Context) :
    ctx.declare (d.coerced env).value = ctx.declare d := rfl

theorem repeatsFunction_of_wellTyped {d : Decl} (h : d.wellTyped quiet ctx) :
    d.repeatsFunction ctx := by
  rw [wellTyped, Bool.and_eq_true] at h
  exact h.1

/-- An initializer that names nothing new is converted the same before and after its variable is
declared. -/
theorem coercedInit_declare {g : Expr → Expr} (hids : ∀ {e name}, name ∈ (g e).ids → name ∈ e.ids)
    {d : Decl} {env : TypeEnv} (hkeeps : d.init.all (d.keepsTypes env)) :
    coercedInit env { d with init := d.init.map g } =
      coercedInit (env.declare d) { d with init := d.init.map g } := by
  refine coercedInit_congr (env.functions_declare d).symm fun e' he' => ?_
  obtain ⟨e, he, rfl⟩ := Option.map_eq_some_iff.1 he'
  rw [he, Option.all_some] at hkeeps
  refine sameTypes_of_keepsTypes ?_
  unfold keepsTypes at hkeeps ⊢
  rw [Option.all_eq_true] at hkeeps ⊢
  intro name hname
  have hkept := hkeeps name hname
  rw [Bool.or_eq_true, Bool.not_eq_true', List.contains_eq_mem, decide_eq_false_iff_not] at hkept ⊢
  exact hkept.imp_left (mt hids)

/-- A declaration of a function does nothing. -/
theorem run_of_isFunction {d : Decl} (h : d.isFunction) (rules : Rules) :
    d.run rules calls ctx = pure () := by
  unfold run
  split
  · rfl
  · rw [if_pos (by simp [h])]

section Prepared

variable {functions : List (String × Signature)} {P : Context → Expr → Prop} {g : Expr → Expr}
  (hg : Prepares calls quiet functions P g)
include hg

/-- Storing rebuilt and converted items. -/
theorem storeItems_coercedItems (hfunctions : ctx.functions = functions) {t : ScalarType}
    (ht : t ≠ .void) {b : Binding} (hb : b.type = t) (i : Nat) (items : List Expr)
    (h : Expr.wellTypedList quiet ctx items) (hP : ∀ e ∈ items, P ctx e) :
    storeItems .explicit calls ctx b i
        (Expr.coercedItems ctx.typeEnv t (items.map (Expr.rebuild g))).value =
      storeItems .implicit calls ctx b i items := by
  induction items generalizing i with
  | nil => rfl
  | cons e rest ih =>
    simp only [Expr.wellTypedList, Bool.and_eq_true, bne_iff_ne] at h
    obtain ⟨⟨he, hvoid⟩, hrest⟩ := h
    obtain ⟨hPe, hPrest⟩ := List.forall_mem_cons.1 hP
    have hstore := storeInit_coercedAs (hg.converts hfunctions) he (hg.rebuild hfunctions he hPe)
      hvoid ht { b.cell with index := i } hb
    simp only [List.map_cons, Expr.coercedItems, Counted.value_bind, Counted.value_pure, storeItems]
    rw [hstore, ih (i + 1) hrest hPrest]

theorem rebuild_initList (items : List Expr) (c : Coord) :
    (Expr.initList items c).rebuild g = .initList (items.map (Expr.rebuild g)) c := by
  rw [Expr.rebuild_eq]
  exact hg.initList _ c

/-- Giving a variable its first value, rebuilt and converted. -/
theorem runInit_coerced (hfunctions : ctx.functions = functions) {d : Decl} {b : Binding}
    (hscalar : d.scalar ≠ .void) (hb : b.type = d.scalar) (harray : b.isArray = d.isArray)
    (h : d.wellTypedInit quiet ctx) (hP : ∀ e ∈ d.initExprs, P ctx e) :
    runInit .explicit calls ctx
        { d with
          init := (coercedInit ctx.typeEnv { d with init := d.init.map (Expr.rebuild g) }).value }
        b =
      runInit .implicit calls ctx d b := by
  have hconv := hg.converts hfunctions
  cases hinit : d.init with
  | none =>
    simp only [runInit, coercedInit, hinit, Option.map_none, Counted.value_pure]
    rfl
  | some e =>
    cases he : e.isBraced with
    | true =>
      cases e with
      | initList items c =>
        simp only [initExprs, hinit] at hP
        simp only [wellTypedInit, hinit, Bool.and_eq_true, Bool.or_eq_true, beq_iff_eq] at h
        obtain ⟨hitems, hlength⟩ := h
        simp only [runInit, coercedInit, hinit, Option.map_some, rebuild_initList hg,
          Counted.value_bind, Counted.value_pure]
        by_cases hisArray : b.isArray
        · simp only [hisArray, if_true]
          exact congrArg (_ >>= fun _ => ·)
            (storeItems_coercedItems hg hfunctions hscalar hb 0 items hitems hP)
        · -- Braces around a single value do nothing.
          have hsingle : items.length = 1 :=
            hlength.resolve_left (by rwa [← harray])
          obtain ⟨e, rfl⟩ := List.length_eq_one_iff.1 hsingle
          simp only [Expr.wellTypedList, Bool.and_eq_true, bne_iff_ne] at hitems
          obtain ⟨⟨he, hvoid⟩, -⟩ := hitems
          simp only [hisArray, Bool.false_eq_true, if_false]
          exact storeInit_coercedAs hconv he (hg.rebuild hfunctions he (hP e (by simp))) hvoid
            hscalar b.cell hb
      | _ => cases he
    | false =>
      rw [wellTypedInit_of_not_braced hinit he] at h
      rw [initExprs_of_not_braced hinit he] at hP
      rw [runInit_of_not_braced hinit he]
      by_cases hisArray : d.isArray
      · -- A text is put into the array as it is.
        rw [if_pos hisArray] at h
        obtain ⟨text, htext⟩ := Option.isSome_iff_exists.1 h
        obtain ⟨c, rfl⟩ := exists_literal_of_text? htext
        have hrebuild : (Expr.literal ⟨.string, text⟩ c).rebuild g = .literal ⟨.string, text⟩ c :=
          (Expr.rebuild_eq g _).trans (hg.literal _ c)
        rw [Option.map_some, hrebuild, coercedInit_of_not_braced d rfl, if_pos hisArray,
          runInit_of_not_braced rfl rfl, harray, if_pos hisArray, if_pos hisArray]
        rfl
      · rw [if_neg hisArray, Bool.and_eq_true, bne_iff_ne] at h
        obtain ⟨hwell, hvoid⟩ := h
        have hto := hg.rebuild hfunctions hwell (hP e (by simp))
        have hbraced := (Expr.isValue_coercedAs hto.value ctx.typeEnv d.scalar).braced
        rw [Option.map_some, coercedInit_of_not_braced d hto.value.braced, if_neg hisArray,
          runInit_of_not_braced rfl hbraced, harray, if_neg hisArray, if_neg hisArray]
        exact storeInit_coercedAs hconv hwell hto hvoid hscalar b.cell hb

/-- A rebuilt and converted declaration does to the memory what the declaration does. -/
theorem run_coerced (hfunctions : ctx.functions = functions) {d : Decl} (h : d.wellTyped quiet ctx)
    (hP : ∀ x ∈ d.exprsIn ctx, P x.1 x.2) (hkept : ∀ e ∈ d.size?, e.rebuild g = e) :
    ((d.rebuild g).coerced ctx.typeEnv).value.run .explicit calls ctx =
      d.run .implicit calls ctx := by
  have hrepeats := repeatsFunction_of_wellTyped h
  rw [rebuild_of_size hkept]
  by_cases hfunction : d.isFunction
  · rw [run_of_isFunction hfunction, run_of_isFunction]
    exact hfunction
  · rw [wellTyped, Bool.and_eq_true, Bool.or_eq_true] at h
    have hparts := h.2.resolve_left hfunction
    simp only [Bool.and_eq_true, bne_iff_ne] at hparts
    obtain ⟨⟨⟨hscalar, hsize⟩, hinit⟩, hkeeps⟩ := hparts
    rw [Bool.not_eq_true] at hfunction
    rcases d.name.eq_none_or_eq_some with hname | ⟨name, hname⟩
    · simp only [run, value_coerced, hname, Option.bind_none]
    · obtain ⟨b, hb, hbtype, hbarray⟩ := Context.binding?_declare hname hfunction ctx
      have hinits : ∀ e ∈ d.initExprs, P (ctx.declare d) e := fun e he =>
        hP (ctx.declare d, e) (List.mem_append_right _ (List.mem_map_of_mem he))
      have hrunInit := runInit_coerced hg ((Context.typeEnv_declare hrepeats).2.trans hfunctions)
        hscalar hbtype hbarray hinit hinits
      -- Conversions are chosen by the types before the declaration, the evaluation comes after it.
      rw [(Context.typeEnv_declare hrepeats).1, ← coercedInit_declare hg.ids hkeeps] at hrunInit
      have hrunSize := evalSize_eq (hg.converts hfunctions) hg.quietOn hsize
      have hbinding : d.name.bind (ctx.declare d).binding? = some b := by
        rw [hname]
        exact hb
      have hdeclare : ctx.declare { d with
          init := (coercedInit ctx.typeEnv { d with init := d.init.map (Expr.rebuild g) }).value } =
            ctx.declare d := rfl
      have hrunSize' : evalSize .explicit calls ctx { d with
          init := (coercedInit ctx.typeEnv { d with init := d.init.map (Expr.rebuild g) }).value } =
            evalSize .implicit calls ctx d := hrunSize
      simp only [run, value_coerced, hdeclare, hbinding, hrunInit, hrunSize']
      rfl

/-- Rebuilt and converted declarations in order; what they declare stays the same. -/
theorem runList_coerced (ds : List Decl) (ctx : Context) (hfunctions : ctx.functions = functions)
    (h : wellTypedList quiet ctx ds) (hP : ∀ x ∈ exprsInList ctx ds, P x.1 x.2)
    (hkept : ∀ d ∈ ds, ∀ e ∈ d.size?, e.rebuild g = e) :
    runList .explicit calls ctx (coercedList ctx.typeEnv (ds.map (rebuild g))).value.1 =
        runList .implicit calls ctx ds ∧
      (coercedList ctx.typeEnv (ds.map (rebuild g))).value.2 =
        (ds.foldl Context.declare ctx).typeEnv ∧
      (coercedList ctx.typeEnv (ds.map (rebuild g))).value.1.foldl Context.declare ctx =
        ds.foldl Context.declare ctx ∧
      (ds.foldl Context.declare ctx).functions = ctx.functions := by
  induction ds generalizing ctx with
  | nil => exact ⟨rfl, rfl, rfl, rfl⟩
  | cons d rest ih =>
    rw [wellTypedList, Bool.and_eq_true] at h
    obtain ⟨hPd, hPrest⟩ := List.forall_mem_append.1 hP
    obtain ⟨hkeptd, hkeptrest⟩ := List.forall_mem_cons.1 hkept
    obtain ⟨htypeEnv, hdeclared⟩ := Context.typeEnv_declare (repeatsFunction_of_wellTyped h.1)
    have hrun := run_coerced hg hfunctions h.1 hPd hkeptd
    have htypeEnv' : ctx.typeEnv.declare (d.rebuild g) = (ctx.declare d).typeEnv := by
      rw [htypeEnv, rebuild_of_size hkeptd]
      rfl
    obtain ⟨ihrun, ihenv, ihafter, ihfunctions⟩ :=
      ih (ctx.declare d) (hdeclared.trans hfunctions) h.2 hPrest hkeptrest
    refine ⟨?_, ?_, ?_, ihfunctions.trans hdeclared⟩
    · simp only [List.map_cons, coercedList, Counted.value_bind, Counted.value_pure, runList,
        declare_coerced, htypeEnv', declare_rebuild]
      rw [hrun, ihrun]
    · simp only [List.map_cons, coercedList, Counted.value_bind, Counted.value_pure, htypeEnv']
      exact ihenv
    · simp only [List.map_cons, coercedList, Counted.value_bind, Counted.value_pure,
        List.foldl_cons, declare_coerced, htypeEnv', declare_rebuild]
      exact ihafter

end Prepared

end Decl

/-! ### Statements -/

/-- A statement and its converted form have the same code, by the implicit and by the explicit
rules, and declare the same names. -/
structure Stmt.SameCode (calls : Calls) (result : ScalarType) (ctx : Context) (s : Stmt)
    (converted : Stmt × TypeEnv) : Prop where
  code : converted.1.code .explicit calls result ctx = s.code .implicit calls result ctx
  after : converted.1.after ctx = s.after ctx
  env : converted.2 = (s.after ctx).typeEnv
  functions : (s.after ctx).functions = ctx.functions

section Prepared

variable {functions : List (String × Signature)} {P : Context → Expr → Prop} {g : Expr → Expr}
  (hg : Prepares calls quiet functions P g) {result : ScalarType}
include hg

/-- A rebuilt and converted initializer clause. -/
theorem ForInit.run_coerced (hfunctions : ctx.functions = functions) (init : Option ForInit)
    (h : ForInit.wellTyped quiet ctx init) (hP : ∀ x ∈ ForInit.exprsIn ctx init, P x.1 x.2)
    (hkept : ∀ d ∈ init.toList.flatMap ForInit.declList, ∀ e ∈ d.size?, e.rebuild g = e) :
    ForInit.run .explicit calls ctx (ForInit.coerced ctx.typeEnv (ForInit.rebuild g init)).value.1 =
        ForInit.run .implicit calls ctx init ∧
      (ForInit.coerced ctx.typeEnv (ForInit.rebuild g init)).value.2 =
        (ForInit.after ctx init).typeEnv ∧
      ForInit.after ctx (ForInit.coerced ctx.typeEnv (ForInit.rebuild g init)).value.1 =
        ForInit.after ctx init ∧
      (ForInit.after ctx init).functions = ctx.functions := by
  match init with
  | none => exact ⟨rfl, rfl, rfl, rfl⟩
  | some (.decls ds) =>
    rw [ForInit.rebuild_decls]
    exact Decl.runList_coerced hg ds ctx hfunctions h hP (by simpa [ForInit.declList] using hkept)
  | some (.expr e) =>
    exact ⟨(hg.rebuild hfunctions h (hP (ctx, e) (List.mem_singleton_self _))).effects, rfl, rfl,
      rfl⟩

namespace Stmt

/-- The rebuilt and converted value of a return. -/
theorem evalReturn_coercedAs (hfunctions : ctx.functions = functions) {value : Option Expr}
    (h : value.all fun e => e.wellTypedTest quiet ctx && result != .void)
    (hP : ∀ e ∈ value, P ctx e) :
    evalReturn .explicit calls result ctx
        (mapOptionM (Expr.coercedAs ctx.typeEnv result) (value.map (Expr.rebuild g))).value =
      evalReturn .implicit calls result ctx value := by
  cases value with
  | none => rfl
  | some e =>
    simp only [Option.all_some, Expr.wellTypedTest, Bool.and_eq_true, bne_iff_ne] at h
    obtain ⟨⟨he, hvoid⟩, hresult⟩ := h
    have hto := hg.rebuild hfunctions he (hP e rfl)
    refine (hto.follows hvoid hresult).bind_eq fun v hv => ?_
    rw [Rules.explicit_expect?_convert hv (Expr.typeIn_ne_void (hg.converts hfunctions) he hvoid)]

/-- A rebuilt and converted condition. -/
theorem evalTest_coercedAs (hfunctions : ctx.functions = functions) {e : Expr}
    (h : e.wellTypedTest quiet ctx) (hP : P ctx e) :
    ((e.rebuild g).coercedAs ctx.typeEnv .bool).value.evalTest .explicit calls ctx =
      e.evalTest .implicit calls ctx := by
  simp only [Expr.wellTypedTest, Bool.and_eq_true, bne_iff_ne] at h
  exact (hg.rebuild hfunctions h.1 hP).evalTest h.2

theorem evalForTest_coercedAs (hfunctions : ctx.functions = functions) {cond : Option Expr}
    (h : cond.all (·.wellTypedTest quiet ctx)) (hP : ∀ e ∈ cond, P ctx e) :
    evalForTest .explicit calls ctx
        (mapOptionM (Expr.coercedAs ctx.typeEnv .bool) (cond.map (Expr.rebuild g))).value =
      evalForTest .implicit calls ctx cond := by
  cases cond with
  | none => rfl
  | some e => exact evalTest_coercedAs hg hfunctions h (hP e rfl)

theorem evalNext_coerced (hfunctions : ctx.functions = functions) {next : Option Expr}
    (h : next.all (·.wellTyped quiet ctx)) (hP : ∀ e ∈ next, P ctx e) :
    evalNext .explicit calls ctx
        (mapOptionM (Expr.coerced ctx.typeEnv) (next.map (Expr.rebuild g))).value =
      evalNext .implicit calls ctx next := by
  cases next with
  | none => rfl
  | some e => exact (hg.rebuild hfunctions h (hP e rfl)).effects

omit hg

/-- The sizes of the declared arrays stay as they are when a statement is rebuilt. -/
def KeepsSizes (g : Expr → Expr) (stmts : List Stmt) : Prop :=
  ∀ s ∈ stmts, ∀ d ∈ s.ownDecls, ∀ e ∈ d.size?, e.rebuild g = e

mutual

/-- A rebuilt and converted statement has the code of the statement. -/
theorem code_coerced (hg : Prepares calls quiet functions P g) (s : Stmt) (ctx : Context)
    (hfunctions : ctx.functions = functions) (h : s.wellTyped quiet result ctx)
    (hP : ∀ x ∈ s.exprsIn ctx, P x.1 x.2) (hkept : KeepsSizes g s.substmts) :
    SameCode calls result ctx s ((s.rebuild g).coerced result ctx.typeEnv).value := by
  have hinner : KeepsSizes g s.substmts.tail := fun t ht => hkept t (List.mem_of_mem_tail ht)
  cases s with
  | decl d c =>
    have hsize : ∀ e ∈ d.size?, e.rebuild g = e :=
      hkept (.decl d c) (by simp [substmts]) d (by simp [ownDecls])
    obtain ⟨htypeEnv, hdeclared⟩ := Context.typeEnv_declare (Decl.repeatsFunction_of_wellTyped h)
    refine ⟨congrArg Code.act (Decl.run_coerced hg hfunctions h hP hsize),
      Decl.declare_rebuild g d ctx, ?_, hdeclared⟩
    refine Eq.trans ?_ htypeEnv.symm
    change ctx.typeEnv.declare (d.rebuild g) = _
    rw [Decl.rebuild_of_size hsize]
    rfl
  | block items b c =>
    obtain ⟨hcode, hafter⟩ := codeList_coercedList hg items ctx hfunctions h hP hinner
    rw [rebuild_block]
    exact ⟨congrArg Code.block hcode, congrArg ctx.leave hafter, rfl, rfl⟩
  | expr e c =>
    have hto := hg.rebuild hfunctions h (hP (ctx, e) (List.mem_singleton_self _))
    exact ⟨congrArg Code.act hto.effects, rfl, rfl, rfl⟩
  | ifThen p t c =>
    rw [wellTyped, Bool.and_eq_true] at h
    obtain ⟨hPp, hPt⟩ := List.forall_mem_cons.1 hP
    have hp := evalTest_coercedAs hg hfunctions h.1 hPp
    have ht := code_coerced hg t ctx hfunctions h.2 hPt hinner
    exact ⟨congrArg₂ (Code.branch · · _) hp ht.code, ht.after, ht.env, ht.functions⟩
  | ifElse p t e c =>
    rw [wellTyped, Bool.and_eq_true, Bool.and_eq_true] at h
    obtain ⟨hPp, hPbranches⟩ := List.forall_mem_cons.1 hP
    obtain ⟨hPt, hPe⟩ := List.forall_mem_append.1 hPbranches
    obtain ⟨hkeptt, hkepte⟩ := List.forall_mem_append.1 hinner
    have hp := evalTest_coercedAs hg hfunctions h.1.1 hPp
    -- The second branch stands in the context that the first one leaves.
    have ht := code_coerced hg t ctx hfunctions h.1.2 hPt hkeptt
    have he := code_coerced hg e (t.after ctx) (ht.functions.trans hfunctions) h.2 hPe hkepte
    rw [← ht.env] at he
    rw [rebuild_ifElse]
    refine ⟨?_, ?_, he.env, he.functions.trans ht.functions⟩
    · simp only [coerced, Counted.value_bind, Counted.value_pure, code, hp, ht.code, ht.after,
        he.code]
    · simp only [coerced, Counted.value_bind, Counted.value_pure, after, ht.after, he.after]
  | forLoop init cond next body c =>
    simp only [wellTyped, Bool.and_eq_true] at h
    obtain ⟨⟨⟨hinit, hcond⟩, hnext⟩, hbody⟩ := h
    simp only [exprsIn, List.map_append, List.forall_mem_append, List.forall_mem_map] at hP
    obtain ⟨⟨hPinit, hPcond, hPnext⟩, hPbody⟩ := hP
    obtain ⟨hrun, henv, hafter, hdeclared⟩ := ForInit.run_coerced hg hfunctions init hinit hPinit
      (hkept (.forLoop init cond next body c) (by simp [substmts]))
    have hfunctions' := hdeclared.trans hfunctions
    have hcond' := evalForTest_coercedAs hg hfunctions' hcond (by simpa using hPcond)
    have hnext' := evalNext_coerced hg hfunctions' hnext (by simpa using hPnext)
    have hbody' := code_coerced hg body (ForInit.after ctx init) hfunctions' hbody hPbody hinner
    rw [← henv] at hcond' hnext' hbody'
    rw [rebuild_forLoop]
    refine ⟨?_, ?_, rfl, rfl⟩
    · simp only [coerced, Counted.value_bind, Counted.value_pure, code, hrun, hafter, hcond',
        hnext', hbody'.code]
    · simp only [coerced, Counted.value_bind, Counted.value_pure, after, hafter, hbody'.after]
  | whileLoop p body c =>
    rw [wellTyped, Bool.and_eq_true] at h
    obtain ⟨hPp, hPbody⟩ := List.forall_mem_cons.1 hP
    have hp := evalTest_coercedAs hg hfunctions h.1 hPp
    have hbody := code_coerced hg body ctx hfunctions h.2 hPbody hinner
    exact ⟨congrArg₂ (Code.loop _ · _ ·) hp hbody.code, hbody.after, hbody.env, hbody.functions⟩
  | doWhile p body c =>
    rw [wellTyped, Bool.and_eq_true] at h
    obtain ⟨hPp, hPbody⟩ := List.forall_mem_cons.1 hP
    have hp := evalTest_coercedAs hg hfunctions h.1 hPp
    have hbody := code_coerced hg body ctx hfunctions h.2 hPbody hinner
    exact ⟨congrArg₂ Code.loopLast hbody.code hp, hbody.after, hbody.env, hbody.functions⟩
  | ret value c =>
    have hvalue := evalReturn_coercedAs hg hfunctions h (by simpa [exprsIn] using hP)
    rw [← mapOptionM_rebuild] at hvalue
    exact ⟨congrArg Code.ret hvalue, rfl, rfl, rfl⟩
  | label n s c =>
    have hs := code_coerced hg s ctx hfunctions h hP hinner
    exact ⟨congrArg (Code.label n) hs.code, hs.after, hs.env, hs.functions⟩
  | brk c | cont c | goto l c | empty c => exact ⟨rfl, rfl, rfl, rfl⟩

/-- Rebuilt and converted statements have the code of the statements. -/
theorem codeList_coercedList (hg : Prepares calls quiet functions P g) (items : List Stmt)
    (ctx : Context) (hfunctions : ctx.functions = functions)
    (h : wellTypedList quiet result ctx items) (hP : ∀ x ∈ exprsInList ctx items, P x.1 x.2)
    (hkept : KeepsSizes g (substmtsList items)) :
    codeList .explicit calls result ctx
        (coercedList result ctx.typeEnv (items.map (rebuild g))).value.1 =
        codeList .implicit calls result ctx items ∧
      afterList ctx (coercedList result ctx.typeEnv (items.map (rebuild g))).value.1 =
        afterList ctx items := by
  cases items with
  | nil => exact ⟨rfl, rfl⟩
  | cons s rest =>
    rw [wellTypedList, Bool.and_eq_true] at h
    obtain ⟨hPs, hPrest⟩ := List.forall_mem_append.1 hP
    obtain ⟨hkepts, hkeptrest⟩ := List.forall_mem_append.1 hkept
    have hs := code_coerced hg s ctx hfunctions h.1 hPs hkepts
    obtain ⟨hcode, hafter⟩ := codeList_coercedList hg rest (s.after ctx)
      (hs.functions.trans hfunctions) h.2 hPrest hkeptrest
    simp only [List.map_cons, coercedList, Counted.value_bind, Counted.value_pure, codeList,
      afterList, hs.code, hs.after, hs.env, hcode, hafter, and_self]

end

end Stmt

end Prepared

end MathKernel
