import MathKernel.Proofs.Kernel.RecordedLiterals
import MathKernel.Proofs.Normalize.RewrittenConstants
import MathKernel.Proofs.Normalize.StaticBindings
import MathKernel.Proofs.Normalize.Variables

/-!
# File-level variables through normalization

Before conversions are written out, normalization renames the static variables of a file, puts the
static variables of functions among them and drops the ones that have the names of routines. Where
each variable is declared once, it is found again by its new name, with the value that it had.

## Main definitions

* `SourceUnit.fileRenames` — the new names of variables
* `SourceUnit.GlobalsBecome` — the variables of a unit in another one

## Main results

* `promoteGlobals_globals`, `globals_promoteInItems` — the promotion of static variables
* `SourceUnit.exists_coerced_of_normalize` — the unit whose conversions are written out last
-/

namespace MathKernel

/-! ### Promotion of static variables -/

/-- A static variable gets a new name, and another variable stays as it is. -/
theorem Item.promoteGlobal_global? (unit : String) (p : Promotion) (item : Item) :
    (∃ d old new, item.global? = some d ∧ d.name = some old ∧
      (item.promoteGlobal unit p).1.global? = some (d.promote new) ∧
      (item.promoteGlobal unit p).2.1 =
        ⟨new :: p.taken, (old, new) :: p.renames, (new, old) :: p.promoted⟩) ∨
    item.staticName? = none ∧ (item.promoteGlobal unit p).1.global? = item.global? ∧
      (item.promoteGlobal unit p).2.1 = p := by
  cases item with
  | decl d =>
    simp only [staticName?, promoteGlobal]
    split
    · next hvariable =>
      rw [Decl.isStaticVariable, Bool.and_eq_true, Bool.not_eq_true'] at hvariable
      cases hname : d.name with
      | none => exact .inr ⟨rfl, rfl, rfl⟩
      | some old =>
        have hpromoted (new : String) : (d.promote new).isFunction = false :=
          (d.isFunction_rename new).trans hvariable.2
        refine .inl ⟨d, old, _, ?_, hname, ?_, rfl⟩
        · rw [global?, hvariable.2]
          rfl
        · rw [global?, hpromoted]
          rfl
    · next hvariable =>
      split
      · next hstatic =>
        -- What is static and no variable is a function.
        have hfunction : d.isFunction = true := by
          rw [Decl.isStaticVariable, hstatic] at hvariable
          simpa using hvariable
        have hdropped : (decl d.dropStatic).global? = none := global?_of_isFunction hfunction
        exact .inr ⟨rfl, hdropped.trans (global?_of_isFunction hfunction).symm, rfl⟩
      · exact .inr ⟨rfl, rfl, rfl⟩
  | func f =>
    simp only [promoteGlobal]
    split <;> exact .inr ⟨rfl, rfl, rfl⟩

/-- The names of static variables are names of variables. -/
theorem Item.exists_global?_of_staticName? {item : Item} {x : String}
    (h : item.staticName? = some x) : ∃ d, item.global? = some d ∧ d.name = some x := by
  cases item with
  | decl d =>
    simp only [staticName?] at h
    split at h
    · next hvariable =>
      rw [Decl.isStaticVariable, Bool.and_eq_true, Bool.not_eq_true'] at hvariable
      exact ⟨d, by rw [global?, hvariable.2]; rfl, h⟩
    · cases h
  | func f => cases h

/-- Where no two variables have one name, each gets the name that stands for it in the end. -/
theorem promoteGlobals_globals {unit : String} {p : Promotion} {items : List Item}
    (honce : ((items.filterMap Item.global?).filterMap Decl.name).Nodup)
    (hp : ∀ x ∈ (items.filterMap Item.global?).filterMap Decl.name, p.renames.lookup x = none) :
    List.Forall₂ (fun d d' => d.InitializedAlike d' ∧
        d'.name = d.name.map (promoteGlobals unit p items).2.1.renames.image)
      (items.filterMap Item.global?)
      ((promoteGlobals unit p items).1.filterMap Item.global?) := by
  induction items generalizing p with
  | nil => exact .nil
  | cons item rest ih =>
    -- The static variables that follow have other names.
    have hlater {d : Decl} {x : String} (hd : item.global? = some d) (hx : d.name = some x) :
        x ∉ rest.filterMap Item.staticName? := by
      intro hmem
      obtain ⟨other, hother, hstatic⟩ := List.mem_filterMap.1 hmem
      obtain ⟨e, he, hname⟩ := Item.exists_global?_of_staticName? hstatic
      rw [List.filterMap_cons_some hd, List.filterMap_cons_some hx] at honce
      exact (List.nodup_cons.1 honce).1
        (List.mem_filterMap.2 ⟨e, List.mem_filterMap.2 ⟨other, hother, he⟩, hname⟩)
    have hlast : (promoteGlobals unit p (item :: rest)).2.1 =
        (promoteGlobals unit (item.promoteGlobal unit p).2.1 rest).2.1 := rfl
    have hitems : (promoteGlobals unit p (item :: rest)).1 =
        (item.promoteGlobal unit p).1 ::
          (promoteGlobals unit (item.promoteGlobal unit p).2.1 rest).1 := rfl
    rw [hlast, hitems]
    rcases item.promoteGlobal_global? unit p with
      ⟨d, old, new, hd, hname, hpromoted, hstep⟩ | ⟨-, hkept, hstep⟩
    · rw [List.filterMap_cons_some hd, List.filterMap_cons_some hname, List.nodup_cons] at honce
      rw [List.filterMap_cons_some hd, List.filterMap_cons_some hname] at hp
      rw [List.filterMap_cons_some hd, List.filterMap_cons_some hpromoted, hstep]
      refine .cons ⟨d.initializedAlike_promote new, ?_⟩ (ih honce.2 fun x hx => ?_)
      · rw [hname, Option.map_some, Renames.image_of_lookup (y := new)]
        · rfl
        · rw [Item.lookup_promoteGlobals (hlater hd hname)]
          exact List.lookup_cons_self
      · rw [Renames.lookup_cons_of_ne fun (heq : x = old) => honce.1 (heq ▸ hx)]
        exact hp x (List.mem_cons_of_mem _ hx)
    · rw [hstep]
      cases hd : item.global? with
      | none =>
        rw [List.filterMap_cons_none hd] at honce hp
        rw [List.filterMap_cons_none hd, List.filterMap_cons_none (hkept.trans hd)]
        exact ih honce hp
      | some d =>
        rw [List.filterMap_cons_some hd] at honce hp
        rw [List.filterMap_cons_some hd, List.filterMap_cons_some (hkept.trans hd)]
        have hsub := ((List.sublist_cons_self d (rest.filterMap Item.global?)).filterMap Decl.name)
        refine .cons ⟨.refl d, (Renames.map_image_of_none fun x hx => ?_).symm⟩
          (ih (hsub.nodup honce) fun x hx => hp x (hsub.subset hx))
        rw [Item.lookup_promoteGlobals (hlater hd hx)]
        exact hp x (List.mem_filterMap.2 ⟨d, List.mem_cons_self, hx⟩)

/-- The variables of a file after the promotion in functions: those that were there, with new names
in their expressions, and hoisted ones, whose names were not taken. -/
theorem globals_promoteInItems {unit : String} {p : Promotion} {items : List Item}
    {result : List Item × Tally} (h : promoteInItems unit p items = .ok result) :
    (∀ d ∈ result.1.filterMap Item.global?,
      (∃ e ∈ items.filterMap Item.global?, (e.renameIds p.renames).value = d) ∨
        ∃ x, d.name = some x ∧ x ∉ p.taken ∧ '_' ∈ x.toList) ∧
      ∀ e ∈ items.filterMap Item.global?,
        (e.renameIds p.renames).value ∈ result.1.filterMap Item.global? := by
  induction items generalizing p result with
  | nil =>
    cases h
    simp
  | cons item rest ih =>
    cases item with
    | decl d =>
      obtain ⟨⟨out, tally⟩, hout, hlast⟩ := Except.bind_eq_ok h
      cases hlast
      have hfunction : (d.renameIds p.renames).value.isFunction = d.isFunction :=
        congrArg ItemHead.isFunction (d.head_mapExprsM false (Expr.renameIds p.renames []))
      have hhead := Item.global?_decl (f := fun d => (d.renameIds p.renames).value) hfunction rfl
      obtain ⟨horigin, hkept⟩ := ih hout
      cases hd : (Item.decl d).global? with
      | none =>
        rw [hd] at hhead
        rw [List.filterMap_cons_none hd, List.filterMap_cons_none hhead]
        exact ⟨horigin, hkept⟩
      | some e =>
        rw [hd] at hhead
        rw [List.filterMap_cons_some hd, List.filterMap_cons_some hhead]
        refine ⟨List.forall_mem_cons.2 ⟨.inl ⟨e, List.mem_cons_self, rfl⟩, fun d' hd' => ?_⟩,
          List.forall_mem_cons.2 ⟨List.mem_cons_self, fun e' he' => ?_⟩⟩
        · rcases horigin d' hd' with ⟨e', he', hd'⟩ | hhoisted
          · exact .inl ⟨e', List.mem_cons_of_mem _ he', hd'⟩
          · exact .inr hhoisted
        · exact List.mem_cons_of_mem _ (hkept e' he')
    | func f =>
      obtain ⟨⟨here, q, tally⟩, hfunction, h⟩ := Except.bind_eq_ok h
      obtain ⟨⟨out, tally'⟩, hout, hlast⟩ := Except.bind_eq_ok h
      obtain ⟨rfl, hrenames, htaken⟩ := FuncDef.promoteStatics_items hfunction
      cases hlast
      obtain ⟨horigin, hkept⟩ := ih hout
      rw [hrenames] at horigin hkept
      rw [List.filterMap_cons_none rfl, List.filterMap_append]
      refine ⟨fun d hd => ?_, fun e he => List.mem_append_right _ (hkept e he)⟩
      rcases List.mem_append.1 hd with hd | hd
      · -- Of what becomes of a function, the hoisted variables are variables.
        obtain ⟨item, hitem, hd⟩ := List.mem_filterMap.1 hd
        rcases List.mem_append.1 hitem with hitem | hitem
        · obtain ⟨e, he, rfl⟩ := List.mem_map.1 hitem
          obtain rfl : e = d := by
            rw [Item.global?] at hd
            split at hd <;> cases hd
            rfl
          obtain ⟨⟨x, hx, hletter⟩, -⟩ := hoistStatics_isMadeUp unit f.name p _ e he
          exact .inr ⟨x, hx, name_hoistStatics_notMem he hx, hletter⟩
        · rw [List.mem_singleton.1 hitem] at hd
          cases hd
      · rcases horigin d hd with hrenamed | ⟨x, hx, hnotMem, hletter⟩
        · exact .inl hrenamed
        · exact .inr ⟨x, hx, fun hmem => hnotMem (htaken hmem), hletter⟩

/-! ### Passes that rename no variable -/

namespace SourceUnit

/-- The variables of the second unit are those of the first one, with their values; those with
certain names may be missing. -/
structure KeepsGlobals (dropped : List String) (u w : SourceUnit) : Prop where
  origin : ∀ d' ∈ w.globals, ∃ d ∈ u.globals, d.KeepsValue id d'
  kept : ∀ d ∈ u.globals, (∀ x, d.name = some x → x ∉ dropped) →
    ∃ d' ∈ w.globals, d.KeepsValue id d'

variable {dropped : List String} {u v w : SourceUnit}

theorem KeepsGlobals.trans (h : u.KeepsGlobals dropped v) (h' : v.KeepsGlobals dropped w) :
    u.KeepsGlobals dropped w where
  origin d'' hd'' := by
    obtain ⟨d', hd', hvalue'⟩ := h'.origin d'' hd''
    obtain ⟨d, hd, hvalue⟩ := h.origin d' hd'
    exact ⟨d, hd, hvalue.trans hvalue'⟩
  kept d hd hname := by
    obtain ⟨d', hd', hvalue⟩ := h.kept d hd hname
    have hname' : d'.name = d.name := hvalue.name.trans Option.map_id_apply
    obtain ⟨d'', hd'', hvalue'⟩ := h'.kept d' hd' (hname' ▸ hname)
    exact ⟨d'', hd'', hvalue.trans hvalue'⟩

theorem KeepsGlobals.of_map {f : Decl → Decl} (hglobals : w.globals = u.globals.map f)
    (hf : ∀ d : Decl, d.KeepsValue id (f d)) : u.KeepsGlobals dropped w where
  origin d' hd' := by
    rw [hglobals] at hd'
    obtain ⟨d, hd, rfl⟩ := List.mem_map.1 hd'
    exact ⟨d, hd, hf d⟩
  kept d hd _ := ⟨f d, hglobals ▸ List.mem_map_of_mem hd, hf d⟩

theorem KeepsGlobals.of_eq (hglobals : w.globals = u.globals) : u.KeepsGlobals dropped w :=
  of_map (hglobals.trans u.globals.map_id.symm) Decl.keepsValue_self

theorem KeepsGlobals.of_filter {keep : Decl → Bool} (hglobals : w.globals = u.globals.filter keep)
    (hkeep : ∀ d, (∀ x, d.name = some x → x ∉ dropped) → keep d = true) :
    u.KeepsGlobals dropped w where
  origin d' hd' := by
    rw [hglobals] at hd'
    exact ⟨d', (List.mem_filter.1 hd').1, d'.keepsValue_self⟩
  kept d hd hname :=
    ⟨d, hglobals ▸ List.mem_filter.2 ⟨hd, hkeep d hname⟩, d.keepsValue_self⟩

/-- The unit whose static variables are promoted. -/
def beforePromotion (u : SourceUnit) : SourceUnit :=
  u.respell.1.removeErrorCalls.1.genericMathNames.1

theorem globals_beforePromotion (hdefinitions : u.DefinesFunctions) :
    u.beforePromotion.globals =
      (u.globals.map fun d => d.respell.value).filter fun d => d.name != some errorRoutine := by
  have htrimmed : u.respell.1.removeErrorCalls.1.DefinesFunctions :=
    (hdefinitions.of_heads u.heads_respell).removeErrorCalls
  rw [beforePromotion, globals_genericMathNames _ (definesFunctions_iff.1 htrimmed),
    globals_removeErrorCalls, globals_respell]

theorem keepsGlobals_beforePromotion (hdefinitions : u.DefinesFunctions) :
    u.KeepsGlobals [errorRoutine] u.beforePromotion where
  origin d' hd' := by
    rw [globals_beforePromotion hdefinitions] at hd'
    obtain ⟨d, hd, rfl⟩ := List.mem_map.1 (List.mem_filter.1 hd').1
    exact ⟨d, hd, d.keepsValue_respell⟩
  kept d hd hname := by
    have hsame : d.respell.value.name = d.name :=
      d.keepsValue_respell.name.trans Option.map_id_apply
    rw [globals_beforePromotion hdefinitions]
    refine ⟨_, List.mem_filter.2 ⟨List.mem_map_of_mem hd, ?_⟩, d.keepsValue_respell⟩
    rw [bne_iff_ne, hsame]
    exact fun hd => hname _ hd (List.mem_singleton.2 rfl)

theorem nodup_beforePromotion (hdefinitions : u.DefinesFunctions)
    (honce : (u.globals.filterMap Decl.name).Nodup) :
    (u.beforePromotion.globals.filterMap Decl.name).Nodup := by
  have hnames : (u.globals.map fun d => d.respell.value).filterMap Decl.name =
      u.globals.filterMap Decl.name := by
    rw [List.filterMap_map]
    exact List.filterMap_congr fun d _ => d.keepsValue_respell.name.trans Option.map_id_apply
  rw [globals_beforePromotion hdefinitions]
  exact (List.filter_sublist.filterMap Decl.name).nodup (hnames ▸ honce)

end SourceUnit

theorem Pass.applyAll_cons_eq_ok {pass : Pass} {rest : List Pass} {context : PassContext}
    {u : SourceUnit} {result : SourceUnit × List (Pass × Tally) × PassContext}
    (h : applyAll (pass :: rest) context u = .ok result) :
    ∃ here, pass.apply context u = .ok here ∧
      ∃ later, applyAll rest here.2.2 here.1 = .ok later ∧ later.1 = result.1 := by
  obtain ⟨here, hhere, h⟩ := Except.bind_eq_ok h
  obtain ⟨later, hlater, h⟩ := Except.bind_eq_ok h
  cases h
  exact ⟨here, hhere, later, hlater, rfl⟩

theorem Pass.apply_keepsGlobals {pass : Pass} (context : PassContext) (u : SourceUnit)
    (hpass : pass ∈ [castCalls, absIdiom, oddIdiom, jumps, loops, recursion, coefficientArrays]) :
    Ensures (pass.apply context u) fun result => u.KeepsGlobals arrayHelpers result.1 := by
  cases pass with
  | castCalls => exact ensures_pure (.of_map u.globals_castsToCalls Decl.keepsValue_castCalls)
  | absIdiom | oddIdiom => exact ensures_pure (.of_eq (u.globals_foldIdiom _ _))
  | jumps => exact ensures_map fun result h => .of_eq (u.globals_eliminateJumps result h)
  | loops => exact ensures_map fun result h => .of_eq (u.globals_boundLoops context.pool result h)
  | recursion => exact ensures_pure (.of_eq u.globals_unrollRecursion)
  | coefficientArrays =>
    refine ensures_map fun result h => .of_filter (u.globals_specializeHelpers result h) ?_
    intro d hname
    cases hd : d.name with
    | none => rfl
    | some x => simpa using hname x hd
  | _ => exact absurd hpass (by decide)

/-! ### Normalization -/

namespace SourceUnit

/-- The promotion of the static variables of a file. -/
def filePromotion (base : String) (u : SourceUnit) : List Item × Promotion × Nat :=
  promoteGlobals (sanitizeIdentifier base) ⟨u.beforePromotion.itemNames, [], []⟩
    u.beforePromotion.items

/-- The new names of the file-level variables of a unit. -/
def fileRenames (base : String) (u : SourceUnit) : Renames :=
  (u.filePromotion base).2.1.renames

/-- The names that promotion adds at file level. -/
def promotedNames (base : String) (u : SourceUnit) : List String :=
  ((u.filePromotion base).1.filterMap Item.name?).filter fun x =>
    !u.beforePromotion.itemNames.contains x

/-- The variables of a unit in another one, under their new names. One with the name of a routine
that is removed may be missing. -/
structure GlobalsBecome (rename : String → String) (u w : SourceUnit) : Prop where
  injective : ∀ x ∈ u.globals.filterMap Decl.name, ∀ y ∈ u.globals.filterMap Decl.name,
    rename x = rename y → x = y
  notANumber : ∀ x, rename x = MathKernel.notANumber → x = MathKernel.notANumber
  origin : ∀ d' ∈ w.globals, ∀ x ∈ u.globals.filterMap Decl.name, d'.name = some (rename x) →
    ∃ d ∈ u.globals, d.KeepsValue rename d'
  kept : ∀ d ∈ u.globals, (∀ x, d.name = some x → x ≠ errorRoutine ∧ rename x ∉ arrayHelpers) →
    ∃ d' ∈ w.globals, d.KeepsValue rename d'

variable {u t v w : SourceUnit} {base : String} {capacity : Nat} {report : Report}

/-- The promotion of static variables and the passes after it. -/
theorem exists_promoted_of_normalize
    (h : normalize { baseName := base, capacity } u = .ok (t, report)) :
    ∃ v tally, u.beforePromotion.promoteStatics (sanitizeIdentifier base) = .ok (v, tally) ∧
      ∃ context result,
        Pass.applyAll [.castCalls, .absIdiom, .oddIdiom, .jumps, .loops, .recursion,
          .coefficientArrays, .coercions] context v = .ok result ∧ result.1 = t := by
  obtain ⟨result, hresult, hreport⟩ := Except.bind_eq_ok h
  have ht : result.1 = t := congrArg Prod.fst (Except.ok.inj hreport)
  obtain ⟨spelled, hspelled, result, hresult, h₁⟩ := Pass.applyAll_cons_eq_ok hresult
  cases hspelled
  dsimp only at hresult
  obtain ⟨trimmed, htrimmed, result, hresult, h₂⟩ := Pass.applyAll_cons_eq_ok hresult
  cases htrimmed
  dsimp only at hresult
  obtain ⟨named, hnamed, result, hresult, h₃⟩ := Pass.applyAll_cons_eq_ok hresult
  cases hnamed
  dsimp only at hresult
  obtain ⟨promoted, hpromoted, result, hresult, h₄⟩ := Pass.applyAll_cons_eq_ok hresult
  obtain ⟨⟨v, tally⟩, hv, rfl⟩ := Except.map_eq_ok hpromoted
  exact ⟨v, tally, hv, _, result, hresult, h₄.trans (h₃.trans (h₂.trans (h₁.trans ht)))⟩

/-- The passes after the promotion of static variables keep the variables up to conversions. -/
theorem exists_coerced_of_applyAll (context : PassContext) (v : SourceUnit) :
    Ensures (Pass.applyAll [.castCalls, .absIdiom, .oddIdiom, .jumps, .loops, .recursion,
      .coefficientArrays, .coercions] context v) fun result =>
        ∃ w, v.KeepsGlobals arrayHelpers w ∧ result.1 = w.coerced.1 := by
  have hlast : [Pass.castCalls, Pass.absIdiom, Pass.oddIdiom, Pass.jumps, Pass.loops,
      Pass.recursion, Pass.coefficientArrays] ++ [Pass.coercions] =
    [Pass.castCalls, Pass.absIdiom, Pass.oddIdiom, Pass.jumps, Pass.loops, Pass.recursion,
      Pass.coefficientArrays, Pass.coercions] := rfl
  rw [← hlast]
  refine Pass.ensures_applyAll_append (Q := fun t => ∃ w, v.KeepsGlobals arrayHelpers w ∧
    t = w.coerced.1) (v.KeepsGlobals arrayHelpers) ?_ fun context w hw => ?_
  · refine Pass.ensures_applyAll (fun pass hpass context w hw => ?_) (.of_eq rfl)
    intro result hresult
    exact hw.trans (pass.apply_keepsGlobals context w hpass result hresult)
  · exact Pass.ensures_applyAll_cons (Q := fun t => ∃ w, v.KeepsGlobals arrayHelpers w ∧
      t = w.coerced.1) (fun t => ∃ w, v.KeepsGlobals arrayHelpers w ∧ t = w.coerced.1)
      (ensures_pure ⟨w, hw, rfl⟩) fun context t ht => ensures_pure ht

/-- The variables of the file are promoted before those in functions. -/
theorem items_of_promoteStatics {tally : Tally}
    (h : u.beforePromotion.promoteStatics (sanitizeIdentifier base) = .ok (v, tally)) :
    ∃ tally, promoteInItems (sanitizeIdentifier base) (u.filePromotion base).2.1
      (u.filePromotion base).1 = .ok (v.items, tally) := by
  obtain ⟨⟨items, tally'⟩, hitems, hlast⟩ := Except.bind_eq_ok h
  cases hlast
  unfold filePromotion itemNames
  exact ⟨tally', hitems⟩

theorem mem_promotedNames {x : String} : x ∈ u.promotedNames base ↔
    x ∈ (u.filePromotion base).1.filterMap Item.name? ∧ x ∉ u.beforePromotion.itemNames := by
  rw [promotedNames, List.mem_filter]
  simp

/-- The names are made up. -/
theorem letter_of_mem_promotedNames {x : String} (hx : x ∈ u.promotedNames base) :
    '_' ∈ x.toList := by
  have hpersists : ItemHead.Persists fun head =>
      ∀ x, head.name = some x → x ∉ u.beforePromotion.itemNames → '_' ∈ x.toList := by
    have hmadeUp {head : ItemHead} (hmade : head.IsMadeUp) (x : String)
        (hname : head.name = some x) : '_' ∈ x.toList := by
      obtain ⟨y, hy, hletter⟩ := hmade
      exact Option.some.inj (hy.symm.trans hname) ▸ hletter
    refine ⟨fun hfollows h x hname => ?_, fun hmade _ x hname _ => hmadeUp hmade x hname⟩
    rcases hfollows.name with ⟨hsame, -⟩ | ⟨hmade, -⟩
    · exact h x (hsame.symm.trans hname)
    · exact fun _ => hmadeUp hmade x hname
  obtain ⟨hx, hnew⟩ := mem_promotedNames.1 hx
  obtain ⟨item, hitem, hname⟩ := List.mem_filterMap.1 hx
  refine hpersists.of_headsFollow (promoteGlobals_headsFollow _ _ _) (forall_heads.2 ?_) item.head
    (List.mem_map_of_mem hitem) x (item.name_head.trans hname) hnew
  intro item hitem x hname hnew
  exact absurd (List.mem_filterMap.2 ⟨item, hitem, item.name_head.symm.trans hname⟩) hnew

theorem sound_filePromotion (base : String) (u : SourceUnit) :
    (u.filePromotion base).2.1.Sound (u.promotedNames base) ∧
      u.beforePromotion.itemNames ⊆ (u.filePromotion base).2.1.taken := by
  have hnames (x : String) (hx : x ∈ (u.filePromotion base).1.filterMap Item.name?) :
      x ∈ u.beforePromotion.itemNames ∨ x ∈ u.promotedNames base := by
    by_cases hmem : x ∈ u.beforePromotion.itemNames
    · exact .inl hmem
    · exact .inr (mem_promotedNames.2 ⟨hx, hmem⟩)
  rw [filePromotion] at hnames ⊢
  exact Item.sound_promoteGlobals (.start _ _) (List.Subset.refl _) hnames

section Names

variable (hdefinitions : u.DefinesFunctions)
include hdefinitions

/-- A variable is still declared before the promotion, or it has the name of a removed routine. -/
theorem mem_itemNames_beforePromotion {x : String} (hx : x ∈ u.globals.filterMap Decl.name) :
    x ∈ u.beforePromotion.itemNames ∨ x = errorRoutine := by
  refine or_iff_not_imp_right.2 fun hother => ?_
  obtain ⟨d, hd, hname⟩ := List.mem_filterMap.1 hx
  obtain ⟨d', hd', hkept⟩ := (keepsGlobals_beforePromotion hdefinitions).kept d hd fun y hy hmem =>
    hother ((Option.some.inj (hname.symm.trans hy)).trans (List.mem_singleton.1 hmem))
  have hname' : d'.name = some x := (hkept.name.trans Option.map_id_apply).trans hname
  rw [globals] at hd'
  obtain ⟨item, hitem, hglobal⟩ := List.mem_filterMap.1 hd'
  refine List.mem_filterMap.2 ⟨item, hitem, ?_⟩
  cases item with
  | decl e =>
    rw [Item.global?] at hglobal
    split at hglobal <;> cases hglobal
    exact hname'
  | func f => cases hglobal

/-- Variables do not have the names that promotion adds. -/
theorem notMem_promotedNames {x : String} (hx : x ∈ u.globals.filterMap Decl.name) :
    x ∉ u.promotedNames base := by
  intro hmem
  rcases mem_itemNames_beforePromotion hdefinitions hx with hold | rfl
  · exact (mem_promotedNames.1 hmem).2 hold
  · exact absurd (letter_of_mem_promotedNames hmem) (by decide)

/-- No variable of a function takes the new name of one at file level. -/
theorem image_fileRenames_ne {x y : String} (hx : x ∈ u.globals.filterMap Decl.name)
    (hy : y ∉ (u.filePromotion base).2.1.taken) (hletter : '_' ∈ y.toList) :
    (u.fileRenames base).image x ≠ y := by
  intro himage
  obtain ⟨hsound, htaken⟩ := u.sound_filePromotion base
  cases hlookup : (u.fileRenames base).lookup x with
  | some z =>
    rw [Renames.image_of_lookup hlookup] at himage
    exact hy (himage ▸ hsound.taken x z hlookup)
  | none =>
    rw [Renames.image_of_none hlookup] at himage
    subst himage
    rcases mem_itemNames_beforePromotion hdefinitions hx with hold | rfl
    · exact hy (htaken hold)
    · exact absurd hletter (by decide)

/-- Each variable gets its new name. -/
theorem globals_filePromotion (base : String) (honce : (u.globals.filterMap Decl.name).Nodup) :
    (∀ d' ∈ (u.filePromotion base).1.filterMap Item.global?, ∃ d ∈ u.beforePromotion.globals,
      d.InitializedAlike d' ∧ d'.name = d.name.map (u.fileRenames base).image) ∧
    ∀ d ∈ u.beforePromotion.globals, ∃ d' ∈ (u.filePromotion base).1.filterMap Item.global?,
      d.InitializedAlike d' ∧ d'.name = d.name.map (u.fileRenames base).image := by
  have hnodup := nodup_beforePromotion hdefinitions honce
  rw [globals] at hnodup ⊢
  have hglobals : List.Forall₂ (fun d d' =>
      d.InitializedAlike d' ∧ d'.name = d.name.map (u.fileRenames base).image)
      (u.beforePromotion.items.filterMap Item.global?)
      ((u.filePromotion base).1.filterMap Item.global?) := by
    unfold fileRenames filePromotion
    exact promoteGlobals_globals hnodup fun _ _ => rfl
  exact ⟨forall_of_forall₂ hglobals fun d hd d' h => ⟨d, hd, h⟩,
    forall_of_forall₂ hglobals.flip fun d' hd' d h => ⟨d', hd', h⟩⟩

end Names

/-- A normalized unit is what the conversions make of one that has the variables of the original. -/
theorem exists_coerced_of_normalize (honce : (u.globals.filterMap Decl.name).Nodup)
    (hdefinitions : u.DefinesFunctions)
    (h : normalize { baseName := base, capacity } u = .ok (t, report)) :
    ∃ w, t = w.coerced.1 ∧ u.GlobalsBecome (u.fileRenames base).image w := by
  obtain ⟨v, tally, hv, context, result, hresult, rfl⟩ := exists_promoted_of_normalize h
  obtain ⟨w, hw, ht⟩ := exists_coerced_of_applyAll context v result hresult
  obtain ⟨tally', hitems⟩ := items_of_promoteStatics hv
  have hglobals : v.globals = v.items.filterMap Item.global? := rfl
  have hsound := (u.sound_filePromotion base).1
  have hold : u.KeepsGlobals [errorRoutine] u.beforePromotion :=
    keepsGlobals_beforePromotion hdefinitions
  obtain ⟨hback, hforth⟩ := globals_filePromotion hdefinitions base honce
  obtain ⟨horigin, hkept⟩ := globals_promoteInItems hitems
  refine ⟨w, ht, fun x hx y hy => ?_, fun x => ?_, fun d' hd' x hx hname => ?_,
    fun d hd hname => ?_⟩
  · exact hsound.image_injective (notMem_promotedNames hdefinitions hx)
      (notMem_promotedNames hdefinitions hy)
  · refine hsound.into.eq_of_image fun hmem => ?_
    exact absurd (letter_of_mem_promotedNames hmem) (by decide)
  · -- A variable of the result is traced back through the conversions and the promotion.
    obtain ⟨d₂, hd₂, hlast⟩ := hw.origin d' hd'
    have hname₂ : d₂.name = some ((u.fileRenames base).image x) :=
      (hlast.name.trans Option.map_id_apply).symm.trans hname
    rw [hglobals] at hd₂
    rcases horigin d₂ hd₂ with ⟨e, he, rfl⟩ | ⟨y, hy, htaken, hletter⟩
    · obtain ⟨d₁, hd₁, halike, himage⟩ := hback e he
      obtain ⟨d, hd, hfirst⟩ := hold.origin d₁ hd₁
      exact ⟨d, hd, (hfirst.id_trans (halike.keepsValue_renameIds himage)).trans_id hlast⟩
    · have hsame := Option.some.inj (hname₂.symm.trans hy)
      exact absurd hsame (image_fileRenames_ne hdefinitions hx htaken hletter)
  · -- A variable of the unit outlasts the first passes, the promotion and the conversions.
    obtain ⟨d₁, hd₁, hfirst⟩ := hold.kept d hd fun x hx hmem =>
      (hname x hx).1 (List.mem_singleton.1 hmem)
    obtain ⟨e, he, halike, himage⟩ := hforth d₁ hd₁
    have hvalue := hfirst.id_trans (halike.keepsValue_renameIds himage)
    have hd₂ := hkept e he
    rw [← hglobals] at hd₂
    have hkeeps (x : String)
        (hx : (e.renameIds (u.fileRenames base)).value.name = some x) :
        x ∉ arrayHelpers := by
      obtain ⟨y, hy, rfl⟩ := Option.map_eq_some_iff.1 (hvalue.name.symm.trans hx)
      exact (hname y hy).2
    obtain ⟨d', hd', hlast⟩ := hw.kept _ hd₂ hkeeps
    exact ⟨d', hd', hvalue.trans_id hlast⟩

end SourceUnit

end MathKernel
