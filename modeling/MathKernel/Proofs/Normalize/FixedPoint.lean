import MathKernel.Proofs.Normalize.Idempotence

/-!
# Normalized units

A pass that runs late can make work for one that runs before it. Conversions may turn a conditional
into the idiom of an absolute value; a declaration that was under a label, or alone in the body of
a loop, may become an item of a block; and a call may be sent to a function that calls back. Where
none of this is left, the normalized unit is a fixed point: nothing else is ever left to do.

## Main definitions

* `SourceUnit.IsSettled` — nothing is left of what late passes can make
* `SourceUnit.IsTidy` — what the passes establish of the items at file level

## Main results

* `normalize_fixed_iff` — the passes leave a normalized unit alone just if it is settled
-/

namespace MathKernel

namespace Pass

variable {passes rest : List Pass} {context : PassContext} {u : SourceUnit}

/-- Passes and then others. -/
theorem ensures_applyAll_append (P : SourceUnit → Prop) {Q : SourceUnit → Prop}
    (hpasses : Ensures (applyAll passes context u) fun result => P result.1)
    (hrest : ∀ context v, P v → Ensures (applyAll rest context v) fun result => Q result.1) :
    Ensures (applyAll (passes ++ rest) context u) fun result => Q result.1 := by
  induction passes generalizing context u with
  | nil => exact hrest context u (hpasses _ rfl)
  | cons pass passes ih =>
    refine ensures_bind (P := fun here => pass.apply context u = .ok here) (fun _ h => h)
      fun here hhere => ?_
    have hlater : Ensures (applyAll passes here.2.2 here.1) fun result => P result.1 := by
      intro result hresult
      refine hpasses (result.1, (pass, here.2.1) :: result.2.1, result.2.2) ?_
      rw [applyAll, hhere]
      change (applyAll passes here.2.2 here.1 >>= _) = _
      rw [hresult]
      rfl
    exact ensures_bind (ih hlater) fun _ hresult => ensures_pure hresult

/-- After the promotion of static variables, all passes up to the unrolling treat the items of the
file alike. -/
theorem castCalls_to_recursion_append :
    [castCalls, absIdiom, oddIdiom, jumps, loops, recursion] ++ [coefficientArrays, coercions] =
      [castCalls, absIdiom, oddIdiom, jumps, loops, recursion, coefficientArrays, coercions] :=
  rfl

/-- What each of the passes keeps is kept by all. -/
theorem ensures_applyAll {I : SourceUnit → Prop}
    (hstep : ∀ pass ∈ passes, ∀ context u, I u →
      Ensures (pass.apply context u) fun result => I result.1)
    (h : I u) : Ensures (applyAll passes context u) fun result => I result.1 := by
  induction passes generalizing context u with
  | nil => exact ensures_pure h
  | cons pass passes ih =>
    obtain ⟨hpass, hpasses⟩ := List.forall_mem_cons.1 hstep
    exact ensures_applyAll_cons I (hpass context u h) fun context v hv => ih hpasses hv

/-- Passes that all leave a unit alone. -/
theorem applyAll_of_leaves (context : PassContext) (h : ∀ pass ∈ passes, pass.Leaves u) :
    applyAll passes context u = .ok (u, passes.map fun pass => (pass, .zero), context) := by
  induction passes with
  | nil => rfl
  | cons pass passes ih =>
    obtain ⟨hpass, hpasses⟩ := List.forall_mem_cons.1 h
    rw [applyAll, hpass context]
    change (applyAll passes context u >>= _) = _
    rw [ih hpasses]
    rfl

end Pass

/-! ### Items of a normalized unit -/

/-- What holds of the heads of a unit once error reports and names of math functions are dealt
with. -/
structure SourceUnit.IsTidy (u : SourceUnit) : Prop where
  errors : ∀ x ∈ u.heads, x.Avoids [errorRoutine]
  conversions : ∀ x ∈ u.heads, x.KeepsConversions
  generic : ∀ x ∈ u.heads, x.IsGeneric
  prototypes : (u.heads.filterMap ItemHead.prototype?).Nodup

theorem SourceUnit.IsTidy.of_headsFollow {u v : SourceUnit} (h : u.IsTidy)
    (hfollow : HeadsFollow u.heads v.heads) : v.IsTidy where
  errors := (ItemHead.persists_avoids (by decide)).of_headsFollow hfollow h.errors
  conversions := ItemHead.persists_keepsConversions.of_headsFollow hfollow h.conversions
  generic := ItemHead.persists_isGeneric.of_headsFollow hfollow h.generic
  prototypes := hfollow.prototypes.nodup h.prototypes

/-- The unit is tidy and has no statics. -/
def SourceUnit.IsPromotedTidy (u : SourceUnit) : Prop :=
  u.IsTidy ∧ ∀ x ∈ u.heads, x.IsPromoted

theorem SourceUnit.IsPromotedTidy.apply {u : SourceUnit} (h : u.IsPromotedTidy) {pass : Pass}
    (hpass : pass ≠ .mathNames) (context : PassContext) :
    Ensures (pass.apply context u) fun result => result.1.IsPromotedTidy := by
  intro result hresult
  have hfollow := Pass.apply_headsFollow hpass context (fun _ => h.2) result hresult
  exact ⟨h.1.of_headsFollow hfollow, ItemHead.persists_isPromoted.of_headsFollow hfollow h.2⟩

/-- What the passes in their standard order establish at file level, and of conversions. -/
structure SourceUnit.IsFinished (u : SourceUnit) : Prop where
  tidy : u.IsTidy
  promoted : ∀ x ∈ u.heads, x.IsPromoted
  helpers : ∀ x ∈ u.heads, x.Avoids arrayHelpers
  coercions : Pass.coercions.Leaves u

theorem applyAll_isFinished {context : PassContext} {u : SourceUnit} (h : u.keepsConversions) :
    Ensures (Pass.applyAll Pass.standard context u) fun result => result.1.IsFinished := by
  refine Pass.ensures_applyAll_cons (fun v => ∀ x ∈ v.heads, x.KeepsConversions) ?_
    fun context u hu => ?_
  · refine ensures_pure ?_
    rw [SourceUnit.heads_respell]
    exact SourceUnit.keepsConversions_iff.1 h
  refine Pass.ensures_applyAll_cons (fun v => (∀ x ∈ v.heads, x.KeepsConversions) ∧
    ∀ x ∈ v.heads, x.Avoids [errorRoutine]) (ensures_pure ⟨?_, ?_⟩) fun context u hu => ?_
  · exact ItemHead.persists_keepsConversions.of_headsFollow u.removeErrorCalls_headsFollow hu
  · exact u.avoids_removeErrorCalls
  refine Pass.ensures_applyAll_cons SourceUnit.IsTidy (ensures_pure ?_) fun context u hu => ?_
  · exact
      { errors := SourceUnit.avoids_genericMathNames (by decide) hu.2
        conversions := SourceUnit.keepsConversions_genericMathNames hu.1
        generic := u.isGeneric_genericMathNames
        prototypes := u.nodup_prototypes_genericMathNames }
  refine Pass.ensures_applyAll_cons SourceUnit.IsPromotedTidy ?_ fun context u hu => ?_
  · refine ensures_map fun result hresult => ⟨?_, ?_⟩
    · exact hu.of_headsFollow (u.promoteStatics_headsFollow context.baseName result hresult)
    · exact u.isPromoted_promoteStatics context.baseName result hresult
  -- From here on items are only renamed, dropped and added.
  rw [← Pass.castCalls_to_recursion_append]
  refine Pass.ensures_applyAll_append SourceUnit.IsPromotedTidy ?_ fun context u hu => ?_
  · refine Pass.ensures_applyAll (fun pass hpass context u hu => hu.apply ?_ context) hu
    rintro rfl
    revert hpass
    decide
  refine Pass.ensures_applyAll_cons (fun v => v.IsPromotedTidy ∧
    ∀ x ∈ v.heads, x.Avoids arrayHelpers) (fun result hresult => ⟨?_, ?_⟩) fun context u hu => ?_
  · exact hu.apply (by decide) context result hresult
  · have hheads : Ensures (Pass.coefficientArrays.apply context u) fun result =>
        ∀ x ∈ result.1.heads, x.Avoids arrayHelpers := ensures_map u.avoids_specializeHelpers
    exact hheads result hresult
  refine Pass.ensures_applyAll_cons SourceUnit.IsFinished ?_ fun _ _ h => ensures_pure h
  have hkept : Ensures (Pass.coercions.apply context u) fun result => result.1.IsPromotedTidy :=
    hu.1.apply (by decide) context
  obtain ⟨htidy, hpromoted⟩ := hkept _ rfl
  refine ensures_pure ⟨htidy, hpromoted, ?_, ?_⟩
  · rw [SourceUnit.heads_coerced]
    exact hu.2
  · exact Pass.leaves_coercions (SourceUnit.keepsConversions_iff.2 hu.1.1.conversions)

theorem Decl.size?_eq_none {d : Decl} (h : d.isFunction = true) : d.size? = none := by
  unfold Decl.isFunction at h
  unfold Decl.size?
  cases htype : d.type with
  | array item size c =>
    rw [htype] at h
    cases h
  | _ => rfl

theorem normalize_isIn_spelled {name : String} {capacity : Nat} {u t : SourceUnit}
    {report : Report} (hdefinitions : ∀ f ∈ u.funcs, f.decl.isFunction = true)
    (h : normalize { baseName := name, capacity } u = .ok (t, report)) :
    t.IsIn Fragment.spelled.normalized := by
  have hfragment : Ensures (Pass.applyAll Pass.standard (.new name capacity) u) fun result =>
      result.1.IsIn Fragment.spelled.normalized := by
    refine Pass.ensures_applyAll_cons (· = u.respell.1) (ensures_pure rfl) ?_
    rintro context _ rfl
    refine applyAll_normalized Fragment.permits_spelled context u.respell_isIn fun f hf e he => ?_
    -- A definition is one of a function, so its declarator has no size.
    have hhead : (Item.func f).head ∈ u.heads := by
      rw [← SourceUnit.heads_respell]
      exact List.mem_map_of_mem hf
    obtain ⟨item, hitem, heq⟩ := List.mem_map.1 hhead
    cases item with
    | decl d => cases congrArg ItemHead.isDefinition heq
    | func g =>
      have hfunction : f.decl.isFunction = true :=
        (congrArg ItemHead.isFunction heq).symm.trans
          (hdefinitions g (SourceUnit.mem_funcs.2 hitem))
      rw [Decl.size?_eq_none hfunction] at he
      cases he
  obtain ⟨result, hresult, h⟩ := Except.bind_eq_ok h
  have ht : result.1 = t := congrArg Prod.fst (Except.ok.inj h)
  exact ht ▸ hfragment result hresult

/-! ### Fixed points -/

/-- Nothing is left of what a late pass can make for an earlier one: no declaration of the error
routine or of a static variable is an item of a block, no expression is an idiom, and no two
functions call each other. -/
structure SourceUnit.IsSettled (t : SourceUnit) : Prop where
  declarations : ∀ f ∈ t.funcs, ∀ d ∈ f.body.itemDecls,
    d.name ≠ some errorRoutine ∧ d.isStaticVariable = false
  idioms : ∀ f ∈ t.funcs, ∀ e ∈ f.body.exprs, e.absOperand? = none ∧ e.oddOperand? = none
  cycles : (CallGraph.ofUnit t).cycles = []

theorem SourceUnit.isSettled_iff {t : SourceUnit} :
    t.IsSettled ↔
      (∀ f ∈ t.funcs, ∀ d ∈ f.body.itemDecls,
        d.name ≠ some errorRoutine ∧ d.isStaticVariable = false) ∧
      (∀ f ∈ t.funcs, ∀ e ∈ f.body.exprs,
        e.absOperand?.isNone = true ∧ e.oddOperand?.isNone = true) ∧
      (CallGraph.ofUnit t).cycles = [] := by
  simp only [Option.isNone_iff_eq_none]
  exact ⟨fun h => ⟨h.declarations, h.idioms, h.cycles⟩, fun h => ⟨h.1, h.2.1, h.2.2⟩⟩

instance (t : SourceUnit) : Decidable t.IsSettled :=
  decidable_of_iff _ SourceUnit.isSettled_iff.symm

/-- A normalized unit that is settled leaves nothing to do. -/
theorem SourceUnit.IsSettled.leaves {t : SourceUnit} (h : t.IsSettled)
    (hfragment : t.IsIn Fragment.spelled.normalized) (hfinished : t.IsFinished) (pass : Pass) :
    pass.Leaves t := by
  have hnormal := Fragment.isNormal_normalized .spelled
  cases pass with
  | spelling => exact hfragment.leaves_spelling ⟨fun _ h => h, fun h => h⟩
  | errorCalls =>
    exact hfragment.leaves_errorCalls (fun _ h => h.1.1.2) hfinished.tidy.errors
      fun f hf d hd => (h.declarations f hf d hd).1
  | mathNames =>
    exact hfragment.leaves_mathNames (fun _ h => h.1.2) hfinished.tidy.generic
      hfinished.tidy.prototypes
  | staticStorage =>
    exact Pass.leaves_staticStorage hfinished.promoted fun f hf d hd =>
      (h.declarations f hf d hd).2
  | castCalls => exact hfragment.leaves_castCalls hnormal.casts
  | absIdiom => exact Pass.leaves_absIdiom fun f hf e he => (h.idioms f hf e he).1
  | oddIdiom => exact Pass.leaves_oddIdiom fun f hf e he => (h.idioms f hf e he).2
  | jumps => exact hfragment.leaves_jumps hnormal.gotos hnormal.labels
  | loops => exact hfragment.leaves_loops hnormal.openLoops
  | recursion => exact Pass.leaves_recursion h.cycles
  | coefficientArrays =>
    exact hfragment.leaves_coefficientArrays (fun _ h => h.2) hfinished.helpers
  | coercions => exact hfinished.coercions

/-- A unit that five of the passes leave alone is settled. -/
theorem SourceUnit.isSettled_of_leaves {t : SourceUnit}
    (h : ∀ pass ∈ Pass.standard, pass.Leaves t) : t.IsSettled := by
  let context := PassContext.new "" 0
  have hin (pass : Pass) (hpass : pass ≠ .spelling ∧ pass ≠ .mathNames)
      (hmem : pass ∈ Pass.standard) : t.IsIn (Fragment.whole.after pass) :=
    Pass.apply_isIn hpass Fragment.permits_whole context t.isIn_whole _ (h pass hmem context)
  have herrors := hin .errorCalls (by decide) (by decide)
  have hstatics := hin .staticStorage (by decide) (by decide)
  have habs : t.foldAbs.1 = t :=
    congrArg Prod.fst (Except.ok.inj (h .absIdiom (by decide) context))
  have hodd : t.foldIsOdd.1 = t :=
    congrArg Prod.fst (Except.ok.inj (h .oddIdiom (by decide) context))
  have hrecursion : t.unrollRecursion.2 = .zero :=
    congrArg (·.2.1) (Except.ok.inj (h .recursion (by decide) context))
  refine ⟨fun f hf d hd => ?_, fun f hf e he => ?_, ?_⟩
  · have hf := SourceUnit.mem_funcs.1 hf
    exact ⟨((herrors _ hf).2.itemDecls hd).2, ((hstatics _ hf).2.itemDecls hd).2⟩
  · have hf := SourceUnit.mem_funcs.1 hf
    exact ⟨t.foldAbs_none (habs.symm ▸ hf) e he, t.foldIsOdd_none (hodd.symm ▸ hf) e he⟩
  · exact SourceUnit.cycles_eq_nil_of_inserted (by rw [hrecursion]; rfl)

/-- The passes leave a normalized unit alone just if it is settled, and then it is a fixed point of
normalization. -/
theorem normalize_fixed_iff {name : String} {capacity : Nat} {u t : SourceUnit} {report : Report}
    (hdefinitions : ∀ f ∈ u.funcs, f.decl.isFunction = true) (hconversions : u.keepsConversions)
    (h : normalize { baseName := name, capacity } u = .ok (t, report)) :
    ((∀ pass ∈ Pass.standard, pass.Leaves t) ↔ t.IsSettled) ∧
      (t.IsSettled → ∃ report', normalize { baseName := name, capacity } t = .ok (t, report') ∧
        ∀ entry ∈ report'.passes, entry.2.isNoop = true) := by
  have hfragment := normalize_isIn_spelled hdefinitions h
  have hfinished : t.IsFinished := by
    obtain ⟨result, hresult, h⟩ := Except.bind_eq_ok h
    have ht : result.1 = t := congrArg Prod.fst (Except.ok.inj h)
    exact ht ▸ applyAll_isFinished hconversions result hresult
  refine ⟨⟨SourceUnit.isSettled_of_leaves, fun hsettled pass _ =>
    hsettled.leaves hfragment hfinished pass⟩, fun hsettled => ?_⟩
  have hrun := Pass.applyAll_of_leaves (.new name capacity)
    fun pass (_ : pass ∈ Pass.standard) => hsettled.leaves hfragment hfinished pass
  refine ⟨⟨sanitizeIdentifier name, Pass.standard.map fun pass => (pass, .zero), 0⟩, ?_, ?_⟩
  · change (Pass.applyAll Pass.standard (.new name capacity) t >>= _) = _
    rw [hrun]
    rfl
  · intro entry hentry
    obtain ⟨pass, -, rfl⟩ := List.mem_map.1 hentry
    rfl

theorem normalize_fixed_iff_dampedWave :
    (∀ f ∈ dampedWave.funcs, f.decl.isFunction = true) ∧ dampedWave.keepsConversions ∧
      ∃ t report, normalize { baseName := "unit", capacity := 6 } dampedWave = .ok (t, report) ∧
        t.IsSettled ∧ (∀ pass ∈ Pass.standard, pass.Leaves t) ∧
        ∃ report', normalize { baseName := "unit", capacity := 6 } t = .ok (t, report') ∧
          ∀ entry ∈ report'.passes, entry.2.isNoop = true := by
  have hdefinitions : ∀ f ∈ dampedWave.funcs, f.decl.isFunction = true := by decide
  have hconversions : dampedWave.keepsConversions := by decide
  have hsettled : ((normalize { baseName := "unit", capacity := 6 } dampedWave).toOption.map
      fun result => decide result.1.IsSettled) = some true := by decide +kernel
  obtain ⟨⟨t, report⟩, hrun, hsettled⟩ := Option.map_eq_some_iff.1 hsettled
  have hrun := Except.eq_ok_of_toOption hrun
  have hsettled : t.IsSettled := of_decide_eq_true hsettled
  obtain ⟨hiff, hfixed⟩ := normalize_fixed_iff hdefinitions hconversions hrun
  exact ⟨hdefinitions, hconversions, t, report, hrun, hsettled, hiff.2 hsettled, hfixed hsettled⟩

/-- The magnitude of an integer, in which only two of the three uses are cast to `float`. -/
def castMagnitude : SourceUnit :=
  let n := Expr.id "n" none
  let cast := Expr.cast .float n none
  let f : FuncDef :=
    { decl := .prototype "f" .float [.ofScalar "n" .int none]
      body := ⟨[.ret (some (.ternary (.binary .lt cast (.int 0 none) none)
        (.unary .neg cast none) n none)) none], none⟩
      coord := none }
  ⟨[.func f], none⟩

/-- The conversion of the third use makes an absolute value that the second run folds. -/
theorem normalize_castMagnitude :
    (castMagnitude.funcs.map FuncDef.name).Nodup ∧ castMagnitude.CallsKnown ∧
      castMagnitude.keepsConversions ∧
      ∃ t report, normalize { baseName := "unit", capacity := 6 } castMagnitude = .ok (t, report) ∧
        ¬ t.IsSettled ∧
        ∃ t' report', normalize { baseName := "unit", capacity := 6 } t = .ok (t', report') ∧
          report'.tally? .absIdiom = some ⟨1, 0, 0⟩ := by
  have hruns : ((normalize { baseName := "unit", capacity := 6 } castMagnitude).toOption.bind
      fun once => if once.1.IsSettled then none else
        (normalize { baseName := "unit", capacity := 6 } once.1).toOption.map
          fun twice => twice.2.tally? .absIdiom) = some (some ⟨1, 0, 0⟩) := by decide +kernel
  obtain ⟨⟨t, report⟩, honce, hruns⟩ := Option.bind_eq_some_iff.1 hruns
  simp only [Option.ite_none_left_eq_some] at hruns
  obtain ⟨hunsettled, htwice⟩ := hruns
  obtain ⟨⟨t', report'⟩, htwice, htally⟩ := Option.map_eq_some_iff.1 htwice
  exact ⟨by decide, by decide +kernel, by decide, t, report, Except.eq_ok_of_toOption honce,
    hunsettled, t', report', Except.eq_ok_of_toOption htwice, htally⟩

end MathKernel
