import MathKernel.Proofs.Normalize.Counting

/-!
# Reports tell whether a unit was changed

A pass reports no change exactly if it gives back the unit it was given. One direction is that a
pass counts all its changes. For the other, most passes leave their own results alone and count
nothing there, so a result that is the unit itself was reached without counting. Two passes need
an argument of their own: unrolling makes a unit longer whenever it counts, and each conversion
that is written out adds weight.

The one exception is a static variable without a name among the items of a block, which is dropped
without being counted.

## Main results

* `SourceUnit.coerced_reports` — conversions
* `Pass.apply_reports` — every pass
* `Pass.apply_namelessStatic` — the exception
-/

namespace MathKernel

/-! ### Conversions -/

namespace Expr

variable (env : TypeEnv)

/-- A computation that adds weight for each change reports its changes. -/
theorem reports_of_weight {e : Expr} {x : Counted Expr} (hleaves : x.Leaves e)
    (hweight : e.weight + x.count ≤ x.value.weight) : x.count = 0 ↔ x.value = e := by
  refine ⟨hleaves, fun hvalue => ?_⟩
  rw [hvalue] at hweight
  omega

theorem coerced_reports (e : Expr) : (e.coerced env).count = 0 ↔ (e.coerced env).value = e :=
  reports_of_weight (coerced_leaves env e) (weight_coercedTo env e.compoundAssigns e)

theorem coercedAs_reports (target : ScalarType) (e : Expr) :
    (e.coercedAs env target).count = 0 ↔ (e.coercedAs env target).value = e := by
  refine reports_of_weight (coercedAs_leaves env target e) ?_
  have hparts := weight_coercedTo env e.compoundAssigns e
  -- The parts are converted first, then the whole; each adds at least what it counts.
  have hwhole := weight_coerce (e.typeIn env) target (e.coerced env).value
  change _ + (e.coerced env).count ≤ (e.coerced env).value.weight at hparts
  simp only [coercedAs, Counted.count_bind, Counted.value_bind]
  omega

theorem coercedItems_reports (target : ScalarType) (items : List Expr) :
    (coercedItems env target items).count = 0 ↔ (coercedItems env target items).value = items := by
  induction items with
  | nil => simp [coercedItems]
  | cons e rest ih => simp [coercedItems, coercedAs_reports, ih]

end Expr

theorem mapOptionM_reports {f : Expr → Counted Expr}
    (hf : ∀ e, (f e).count = 0 ↔ (f e).value = e) (e : Option Expr) :
    (mapOptionM f e).count = 0 ↔ (mapOptionM f e).value = e := by
  cases e with
  | none => simp [mapOptionM]
  | some e => simp [mapOptionM, hf]

theorem Decl.coercedInit_reports (env : TypeEnv) (d : Decl) :
    (d.coercedInit env).count = 0 ↔ (d.coercedInit env).value = d.init := by
  cases hinit : d.init with
  | none => simp [coercedInit, hinit]
  | some e =>
    cases hlist : e.isInitList with
    | true =>
      cases e with
      | initList items c => simp [coercedInit, hinit, Expr.coercedItems_reports]
      | _ => cases hlist
    | false =>
      rw [coercedInit_of_init hinit hlist]
      by_cases harray : d.isArray
      · simp [harray, Expr.coerced_reports]
      · simp [harray, Expr.coercedAs_reports]

theorem Decl.coerced_reports (env : TypeEnv) (d : Decl) :
    (d.coerced env).count = 0 ↔ (d.coerced env).value = d := by
  have hinit := d.coercedInit_reports env
  obtain ⟨name, quals, storage, type, init, c⟩ := d
  simp [Decl.coerced, hinit]

theorem Decl.coercedList_reports (env : TypeEnv) (ds : List Decl) :
    (Decl.coercedList env ds).count = 0 ↔ (Decl.coercedList env ds).value.1 = ds := by
  induction ds generalizing env with
  | nil => simp [Decl.coercedList]
  | cons d rest ih => simp [Decl.coercedList, Decl.coerced_reports, ih]

theorem ForInit.coerced_reports (env : TypeEnv) (init : Option ForInit) :
    (ForInit.coerced env init).count = 0 ↔ (ForInit.coerced env init).value.1 = init := by
  cases init with
  | none => simp [ForInit.coerced]
  | some init =>
    cases init with
    | decls ds => simp [ForInit.coerced, Decl.coercedList_reports]
    | expr e => simp [ForInit.coerced, Expr.coerced_reports]

namespace Stmt

mutual

theorem coerced_reports (result : ScalarType) (env : TypeEnv) (s : Stmt) :
    (Stmt.coerced result env s).count = 0 ↔ (Stmt.coerced result env s).value.1 = s := by
  cases s with
  | decl d c => simp [Stmt.coerced, Decl.coerced_reports]
  | block items b c => simp [Stmt.coerced, coercedList_reports result env items]
  | expr e c => simp [Stmt.coerced, Expr.coerced_reports]
  | ifThen p t c => simp [Stmt.coerced, Expr.coercedAs_reports, coerced_reports result env t]
  | ifElse p t e c =>
    simp [Stmt.coerced, Expr.coercedAs_reports, coerced_reports result env t,
      coerced_reports result _ e]
  | forLoop init cond next body c =>
    simp [Stmt.coerced, ForInit.coerced_reports, mapOptionM_reports (Expr.coercedAs_reports _ _),
      mapOptionM_reports (Expr.coerced_reports _), coerced_reports result _ body]
  | whileLoop p body c | doWhile p body c =>
    simp [Stmt.coerced, Expr.coercedAs_reports, coerced_reports result env body]
  | ret value c => simp [Stmt.coerced, mapOptionM_reports (Expr.coercedAs_reports env result)]
  | label n s c => simp [Stmt.coerced, coerced_reports result env s]
  | brk | cont | goto | empty => simp [Stmt.coerced]

theorem coercedList_reports (result : ScalarType) (env : TypeEnv) (items : List Stmt) :
    (coercedList result env items).count = 0 ↔
      (coercedList result env items).value.1 = items := by
  cases items with
  | nil => simp [coercedList]
  | cons s rest =>
    simp [coercedList, coerced_reports result env s, coercedList_reports result _ rest]

end

end Stmt

theorem Item.coerced_reports (env : TypeEnv) (item : Item) :
    (item.coerced env).count = 0 ↔ (item.coerced env).value = item := by
  cases item with
  | decl d =>
    by_cases hfunction : d.isFunction
    · simp [Item.coerced, hfunction]
    · simp [Item.coerced, hfunction, Decl.coerced_reports]
  | func f =>
    obtain ⟨decl, ⟨items, c⟩, c'⟩ := f
    simp [Item.coerced, Stmt.coercedList_reports]

theorem Counted.mapM_reports {α : Type} {f : α → Counted α}
    (hf : ∀ a, (f a).count = 0 ↔ (f a).value = a) (items : List α) :
    (items.mapM f).count = 0 ↔ (items.mapM f).value = items := by
  induction items with
  | nil => simp
  | cons a rest ih => simp [List.mapM_cons, hf, ih]

/-- Conversions are reported exactly if they change the unit. -/
theorem SourceUnit.coerced_reports (u : SourceUnit) : u.coerced.2 = .zero ↔ u.coerced.1 = u := by
  have hitems := Counted.mapM_reports (Item.coerced_reports (TypeEnv.ofUnit u)) u.items
  obtain ⟨items, c⟩ := u
  simp only [SourceUnit.coerced, SourceUnit.mapItemsM, Tally.ofChanged_eq_zero] at hitems ⊢
  simp [hitems]

/-! ### Unrolling -/

theorem length_le_insertCopies (copies : List (String × FuncDef)) (items : List Item) :
    items.length ≤ (insertCopies copies items).length := by
  fun_induction insertCopies copies items with
  | case1 => exact Nat.le_refl _
  | case2 copies d rest ih => simpa using ih
  | case3 copies f rest hlookup ih => simpa using ih
  | case4 copies f rest copy hlookup ih =>
    simp only [List.length_cons]
    omega

/-- A unit gets longer by a copy of one of its functions. -/
theorem length_lt_insertCopies {copies : List (String × FuncDef)} {items : List Item} {f : FuncDef}
    (hf : .func f ∈ items) (hcopy : copies.lookup f.name ≠ none) :
    items.length < (insertCopies copies items).length := by
  fun_induction insertCopies copies items with
  | case1 => cases hf
  | case2 copies d rest ih =>
    have := ih ((List.mem_cons.1 hf).resolve_left nofun) hcopy
    simpa using this
  | case3 copies g rest hlookup ih =>
    rcases List.mem_cons.1 hf with heq | hf
    · cases heq
      exact absurd hlookup hcopy
    · simpa using ih hf hcopy
  | case4 copies g rest copy hlookup ih =>
    have := length_le_insertCopies (copies.filter (·.1 != g.name)) rest
    simp only [List.length_cons]
    omega

/-- Redirecting its calls leaves a function in the unit, under its name. -/
theorem Unrolling.exists_func_mem_redirected (acc : Unrolling) (cycles : List (String × String))
    {items : List Item} {g : FuncDef} (hg : .func g ∈ items) :
    ∃ body, .func { g with body } ∈ items.map fun item => (acc.redirectItem cycles item).value :=
  ⟨_, List.mem_map.2 ⟨_, hg, rfl⟩⟩

/-- Where there is a short cycle, the unit gets longer. -/
theorem SourceUnit.cycles_eq_nil_of_unchanged {u : SourceUnit} (h : u.unrollRecursion.1 = u) :
    (CallGraph.ofUnit u).cycles = [] := by
  refine List.eq_nil_iff_forall_not_mem.2 fun cycle hcycle => ?_
  -- Of some function on the cycle there is a copy, and it is put behind the function.
  obtain ⟨g, hg, copy, hcopy⟩ := SourceUnit.exists_copy_of_mem_cycles hcycle
  obtain ⟨body, hbody⟩ := Unrolling.exists_func_mem_redirected _ (CallGraph.ofUnit u).cycles
    (SourceUnit.mem_funcs.1 hg)
  have hgrows := length_lt_insertCopies hbody (hcopy ▸ Option.some_ne_none copy)
  rw [List.length_map, ← Counted.value_mapM] at hgrows
  have hlength : u.unrollRecursion.1.items.length = u.items.length := by rw [h]
  exact absurd hlength (Nat.ne_of_gt hgrows)

namespace Pass

/-- A pass that gives back the unit it was given has counted nothing. -/
theorem apply_unchanged {pass : Pass} {context context' : PassContext} {u : SourceUnit}
    {tally : Tally} (h : pass.apply context u = .ok (u, tally, context')) : tally = .zero := by
  have hleaves (hpass : pass.Leaves u) : tally = .zero := by
    have := (hpass context).symm.trans h
    cases this
    rfl
  -- Two passes do not leave all their results alone.
  by_cases hrecursion : pass = .recursion
  · subst hrecursion
    have hunit : u.unrollRecursion.1 = u := (Prod.mk.inj (Except.ok.inj h)).1
    exact hleaves (leaves_recursion (SourceUnit.cycles_eq_nil_of_unchanged hunit))
  · by_cases hcoercions : pass = .coercions
    · subst hcoercions
      obtain ⟨hunit, hrest⟩ := Prod.mk.inj (Except.ok.inj h)
      exact (Prod.mk.inj hrest).1.symm.trans (u.coerced_reports.2 hunit)
    · exact hleaves (apply_leaves_of_ne ⟨hrecursion, hcoercions⟩ context u _ h)

/-- A pass that has counted nothing gives back the unit it was given. -/
theorem apply_zero {pass : Pass} {context context' : PassContext} {u v : SourceUnit}
    (hnamed : pass = .staticStorage → u.StaticsNamed)
    (h : pass.apply context u = .ok (v, .zero, context')) : v = u := by
  -- A pass cannot fail, or may fail, or also uses up names of the context.
  have hpure {result : SourceUnit × Tally} (hretains : result.2 = .zero → result.1 = u)
      (h : (pure (result.1, result.2, context) : Except NormalizeError _) =
        .ok (v, .zero, context')) : v = u := by
    obtain ⟨rfl, hrest⟩ := Prod.mk.inj (Except.ok.inj h)
    exact hretains (Prod.mk.inj hrest).1
  have hmap {x : Except NormalizeError (SourceUnit × Tally)}
      (hretains : x = .ok (v, .zero) → v = u)
      (h : x.map (fun result => (result.1, result.2, context)) = .ok (v, .zero, context')) :
      v = u := by
    cases x with
    | error e => cases h
    | ok result =>
      obtain ⟨v', tally⟩ := result
      cases h
      exact hretains rfl
  cases pass with
  | spelling => exact hpure SourceUnit.respell_retains h
  | errorCalls => exact hpure SourceUnit.removeErrorCalls_retains h
  | mathNames => exact hpure SourceUnit.genericMathNames_retains h
  | staticStorage => exact hmap (SourceUnit.promoteStatics_retains (hnamed rfl)) h
  | castCalls => exact hpure SourceUnit.castsToCalls_retains h
  | absIdiom => exact hpure SourceUnit.foldIdiom_retains h
  | oddIdiom => exact hpure SourceUnit.foldIdiom_retains h
  | jumps => exact hmap SourceUnit.eliminateJumps_retains h
  | loops =>
    simp only [apply] at h
    cases hrun : u.boundLoops context.pool with
    | error e =>
      rw [hrun] at h
      cases h
    | ok result =>
      obtain ⟨v', tally, pool⟩ := result
      rw [hrun] at h
      cases h
      exact SourceUnit.boundLoops_retains hrun
  | recursion => exact hpure SourceUnit.unrollRecursion_retains h
  | coefficientArrays => exact hmap SourceUnit.specializeHelpers_retains h
  | coercions => exact hpure u.coerced_reports.1 h

/-- A pass that succeeds reports no change exactly if it gives back the unit it was given, in
every context. The promotion of statics is the exception: there the report is right if every
static variable among the items of a block has a name. -/
theorem apply_reports {pass : Pass} {context context' : PassContext} {u v : SourceUnit}
    {tally : Tally} (h : pass.apply context u = .ok (v, tally, context')) :
    v = u ↔ tally.isNoop = true ∧ (pass = .staticStorage → u.StaticsNamed) := by
  rw [Tally.isNoop_iff]
  constructor
  · intro heq
    subst heq
    refine ⟨apply_unchanged h, ?_⟩
    rintro rfl f hf d hd hstatic
    -- No function of the result has a static variable, so none of this unit has.
    have hin : v.IsIn (Fragment.whole.after .staticStorage) :=
      apply_isIn (by decide) Fragment.permits_whole context v.isIn_whole _ h
    have hnone := ((hin _ (SourceUnit.mem_funcs.1 hf)).2.itemDecls hd).2
    rw [hstatic] at hnone
    cases hnone
  · rintro ⟨rfl, hnamed⟩
    exact apply_zero hnamed h

/-- The unit `int f(int x) { static int name; return x; }`, where the variable need not have a
name. -/
def staticLocal (name : Option String) : SourceUnit :=
  let n : Decl :=
    { name, quals := [], storage := [.static], type := .element (.ofScalar name .int)
      init := none, coord := none }
  let f : FuncDef :=
    { decl := .prototype "f" .int [.ofScalar "x" .int none]
      body := ⟨[.decl n none, .ret (some (.id "x" none)) none], none⟩
      coord := none }
  ⟨[.func f], none⟩

theorem apply_reports_staticLocal :
    (staticLocal (some "n")).StaticsNamed ∧ ∃ v tally,
      staticStorage.apply (.new "unit" 0) (staticLocal (some "n")) =
        .ok (v, tally, .new "unit" 0) ∧ tally.isNoop = false ∧ v ≠ staticLocal (some "n") := by
  have hrun : staticStorage.apply (.new "unit" 0) (staticLocal (some "n")) =
      .ok (_, ⟨0, 1, 0⟩, .new "unit" 0) := rfl
  refine ⟨by decide, _, _, hrun, rfl, fun heq => ?_⟩
  obtain ⟨hnoop, -⟩ := (apply_reports hrun).1 heq
  cases hnoop

/-- A static variable without a name is dropped, and nothing is reported. -/
theorem apply_namelessStatic : ∃ v tally,
    staticStorage.apply (.new "unit" 0) (staticLocal none) = .ok (v, tally, .new "unit" 0) ∧
      tally.isNoop = true ∧ v ≠ staticLocal none := by
  refine ⟨_, _, rfl, rfl, fun heq => ?_⟩
  injection heq with hitems
  cases hitems

end Pass

end MathKernel
