import MathKernel.Proofs.Normalize.FixedPoint
import MathKernel.Proofs.Normalize.Globals
import MathKernel.Proofs.Normalize.Recursion

/-!
# Variables of a normalized unit

How a variable is classified depends on which of its declarations at file level are external and
which are initialized. Passes change the expressions of a declaration and the spelling of its type,
rename the static ones and drop the routines they deal with, variables of these names included. All
other variables are declared after normalization as they were before.

## Main definitions

* `VariableHead`, `SourceUnit.variableHeads` — the declarations of a variable
* `droppedNames` — the names of routines that normalization removes

## Main results

* `Pass.apply_variableHeads` — passes keep the declarations of a variable
* `normalize_variableHeads`, `normalize_isTrimmed` — so does normalization, and what it removes
* `ItemHead.Persists.normalize` — what normalization keeps of each item
-/

namespace MathKernel

/-- What the classification of a variable depends on in a declaration. -/
structure VariableHead where
  isExternal : Bool
  isInitialized : Bool
  deriving DecidableEq, Repr

/-- The declaration of a variable that is not static. -/
def Decl.variableHead? (name : String) (d : Decl) : Option VariableHead :=
  if d.isFunction = false ∧ d.isStatic = false ∧ d.name = some name then
    some ⟨d.isExternal, d.init.isSome⟩
  else none

/-- The declaration of a variable by an item. -/
def Item.variableHead? (name : String) : Item → Option VariableHead
  | .decl d => d.variableHead? name
  | .func _ => none

/-- The declarations of a variable at file level, without static ones. -/
def SourceUnit.variableHeads (name : String) (u : SourceUnit) : List VariableHead :=
  u.items.filterMap (Item.variableHead? name)

section Declarations

variable {name : String} {d d' : Decl}

theorem Decl.variableHead?_eq_some {head : VariableHead} :
    d.variableHead? name = some head ↔
      (d.isFunction = false ∧ d.isStatic = false ∧ d.name = some name) ∧
        (⟨d.isExternal, d.init.isSome⟩ : VariableHead) = head := by
  unfold Decl.variableHead?
  split <;> simp_all

/-- Declarations that differ only in what the classification does not look at. -/
theorem Decl.variableHead?_congr (hhead : d'.head false = d.head false)
    (hstorage : d'.storage = d.storage) (hinit : d'.init.isSome = d.init.isSome) :
    d'.variableHead? name = d.variableHead? name := by
  have hname : d'.name = d.name := congrArg ItemHead.name hhead
  have hfunction : d'.isFunction = d.isFunction := congrArg ItemHead.isFunction hhead
  have hstatic : d'.isStatic = d.isStatic := congrArg ItemHead.isStatic hhead
  have hexternal : d'.isExternal = d.isExternal := by rw [isExternal, hstorage, isExternal]
  rw [variableHead?, variableHead?, hname, hfunction, hstatic, hexternal, hinit]

theorem Decl.variableHead?_of_name_ne (h : d.name ≠ some name) : d.variableHead? name = none :=
  if_neg fun hd => h hd.2.2

theorem Decl.variableHead?_of_isStatic (h : d.isStatic = true) : d.variableHead? name = none :=
  if_neg fun hd => Bool.false_ne_true (hd.2.1.symm.trans h)

theorem Decl.variableHead?_of_isFunction (h : d.isFunction = true) :
    d.variableHead? name = none :=
  if_neg fun hd => Bool.false_ne_true (hd.1.symm.trans h)

theorem Item.variableHead?_of_name_ne {item : Item} (h : item.name? ≠ some name) :
    item.variableHead? name = none := by
  cases item with
  | decl d => exact Decl.variableHead?_of_name_ne h
  | func f => rfl

theorem Decl.variableHead?_mapExprsM (f : Expr → Counted Expr) (d : Decl) :
    (d.mapExprsM f).value.variableHead? name = d.variableHead? name := by
  apply variableHead?_congr (d.head_mapExprsM false f)
  · rfl
  · change (mapOptionM f d.init).value.isSome = d.init.isSome
    cases d.init <;> rfl

theorem Decl.variableHead?_respell (d : Decl) :
    d.respell.value.variableHead? name = d.variableHead? name := by
  rw [Decl.respell, Counted.value_bind, Decl.variableHead?_mapExprsM]
  apply variableHead?_congr (d.head_respellType false)
  all_goals
    cases d
    rw [Decl.respellType]
    rfl

theorem Decl.variableHead?_coerced (env : TypeEnv) (d : Decl) :
    (d.coerced env).value.variableHead? name = d.variableHead? name := by
  apply variableHead?_congr (by rfl) (by rfl)
  change (d.coercedInit env).value.isSome = d.init.isSome
  unfold Decl.coercedInit
  split
  · next items c hinit =>
    rw [hinit]
    rfl
  · next e hinit =>
    rw [hinit]
    split <;> rfl
  · next hinit =>
    rw [hinit]
    rfl

end Declarations

section Passes

variable {name : String} (u : SourceUnit)

/-! ### Passes other than the promotion of statics -/

theorem SourceUnit.variableHeads_eq (name : String) (u : SourceUnit) :
    u.variableHeads name = u.globals.filterMap (Decl.variableHead? name) := by
  rw [globals, List.filterMap_filterMap]
  refine List.filterMap_congr fun item _ => ?_
  cases item with
  | decl d =>
    rw [Item.variableHead?, Item.global?]
    split
    · next hfunction => exact Decl.variableHead?_of_isFunction hfunction
    · rfl
  | func f => rfl

/-- Variables that are changed one by one. -/
theorem SourceUnit.variableHeads_of_map {u' : SourceUnit} {f : Decl → Decl}
    (hglobals : u'.globals = u.globals.map f)
    (hf : ∀ d, (f d).variableHead? name = d.variableHead? name) :
    u'.variableHeads name = u.variableHeads name := by
  rw [variableHeads_eq, variableHeads_eq, hglobals, List.filterMap_map]
  exact List.filterMap_congr fun d _ => hf d

/-- Variables of other names may be dropped. -/
theorem SourceUnit.variableHeads_of_filter {u' : SourceUnit} {keep : Decl → Bool}
    (hglobals : u'.globals = u.globals.filter keep)
    (hkeep : ∀ d, keep d = false → d.name ≠ some name) :
    u'.variableHeads name = u.variableHeads name := by
  rw [variableHeads_eq, variableHeads_eq, hglobals, List.filterMap_filter]
  refine List.filterMap_congr fun d _ => ?_
  split
  · rfl
  · next hdropped =>
    exact (Decl.variableHead?_of_name_ne (hkeep d (Bool.eq_false_iff.2 hdropped))).symm

theorem SourceUnit.variableHeads_of_eq {u' : SourceUnit} (hglobals : u'.globals = u.globals) :
    u'.variableHeads name = u.variableHeads name := by
  rw [variableHeads_eq, variableHeads_eq, hglobals]

theorem SourceUnit.variableHeads_removeErrorCalls (hname : name ≠ errorRoutine) :
    u.removeErrorCalls.1.variableHeads name = u.variableHeads name := by
  refine u.variableHeads_of_filter u.globals_removeErrorCalls fun d hdropped hd => hname ?_
  have hd' : d.name = some errorRoutine := by simpa using hdropped
  exact Option.some.inj (hd.symm.trans hd')

theorem SourceUnit.variableHeads_specializeHelpers (hname : name ∉ arrayHelpers) :
    Ensures u.specializeHelpers fun result =>
      result.1.variableHeads name = u.variableHeads name := by
  intro result hresult
  refine u.variableHeads_of_filter (u.globals_specializeHelpers result hresult)
    fun d hdropped hd => hname ?_
  rw [hd] at hdropped
  simpa using hdropped

/-! ### Promotion of statics -/

theorem promotedName_ne {taken : List String} (h : name ∈ taken) (unit : String)
    (function : Option String) (old : String) : promotedName taken unit function old ≠ name := by
  intro hsame
  apply freshName_notMem "_" taken
  change promotedName taken unit function old ∈ taken
  rw [hsame]
  exact h

theorem Decl.variableHead?_promote {taken : List String} (h : name ∈ taken) (d : Decl)
    (unit : String) (function : Option String) (old : String) :
    (d.promote (promotedName taken unit function old)).variableHead? name = none := by
  apply Decl.variableHead?_of_name_ne
  intro hname
  exact promotedName_ne h unit function old (Option.some.inj hname)

theorem Item.promoteGlobal_variableHead? {p : Promotion} (h : name ∈ p.taken) (unit : String)
    (item : Item) :
    (item.promoteGlobal unit p).1.variableHead? name = item.variableHead? name ∧
      name ∈ (item.promoteGlobal unit p).2.1.taken := by
  cases item with
  | decl d =>
    simp only [Item.promoteGlobal]
    by_cases hvariable : d.isStaticVariable = true
    · rw [if_pos hvariable]
      rw [Decl.isStaticVariable, Bool.and_eq_true] at hvariable
      cases hname : d.name with
      | none => exact ⟨rfl, h⟩
      | some old =>
        refine ⟨?_, List.mem_cons_of_mem _ h⟩
        exact (Decl.variableHead?_promote h d unit none old).trans
          (Decl.variableHead?_of_isStatic hvariable.1).symm
    · rw [if_neg hvariable]
      split
      · next hstatic =>
        -- What is static and no variable is a function.
        have hfunction : d.isFunction = true := by
          rw [Decl.isStaticVariable, hstatic] at hvariable
          simpa using hvariable
        have hdropped : d.dropStatic.variableHead? name = none :=
          Decl.variableHead?_of_isFunction hfunction
        exact ⟨hdropped.trans (Decl.variableHead?_of_isFunction hfunction).symm, h⟩
      · exact ⟨rfl, h⟩
  | func f =>
    simp only [Item.promoteGlobal]
    split
    · exact ⟨rfl, h⟩
    · exact ⟨rfl, h⟩

theorem promoteGlobals_variableHeads {p : Promotion} (h : name ∈ p.taken) (unit : String)
    (items : List Item) :
    (promoteGlobals unit p items).1.filterMap (Item.variableHead? name) =
        items.filterMap (Item.variableHead? name) ∧
      name ∈ (promoteGlobals unit p items).2.1.taken := by
  induction items generalizing p with
  | nil => exact ⟨rfl, h⟩
  | cons item rest ih =>
    obtain ⟨hitem, htaken⟩ := item.promoteGlobal_variableHead? h unit
    obtain ⟨hrest, hlast⟩ := ih htaken
    refine ⟨?_, hlast⟩
    rw [promoteGlobals]
    change List.filterMap _ (_ :: _) = _
    rw [List.filterMap_cons, List.filterMap_cons, hitem, hrest]

theorem hoistStatics_variableHeads {p : Promotion} (h : name ∈ p.taken) (unit function : String)
    (ds : List Decl) :
    (∀ d ∈ (hoistStatics unit function p ds).1, d.variableHead? name = none) ∧
      name ∈ (hoistStatics unit function p ds).2.1.taken := by
  induction ds generalizing p with
  | nil => exact ⟨by simp [hoistStatics], h⟩
  | cons d rest ih =>
    unfold hoistStatics
    split
    · exact ih h
    · obtain ⟨hrest, hlast⟩ := ih (p := ⟨_, _, _⟩) (List.mem_cons_of_mem _ h)
      refine ⟨List.forall_mem_cons.2 ⟨?_, hrest⟩, hlast⟩
      exact Decl.variableHead?_promote h _ unit _ _

theorem promoteInItems_variableHeads {p : Promotion} (h : name ∈ p.taken) (unit : String)
    (items : List Item) :
    Ensures (promoteInItems unit p items) fun result =>
      result.1.filterMap (Item.variableHead? name) = items.filterMap (Item.variableHead? name) := by
  induction items generalizing p with
  | nil => exact ensures_pure rfl
  | cons item rest ih =>
    cases item with
    | decl d =>
      refine ensures_bind (ih h) fun result hresult => ensures_pure ?_
      have hd : (d.renameIds p.renames).value.variableHead? name = d.variableHead? name :=
        d.variableHead?_mapExprsM _
      rw [List.filterMap_cons, List.filterMap_cons, hresult, Item.variableHead?, hd,
        Item.variableHead?]
    | func f =>
      have hf : Ensures (f.promoteStatics unit p) fun result =>
          result.1.filterMap (Item.variableHead? name) = [] ∧ name ∈ result.2.1.taken := by
        intro result hresult
        rw [FuncDef.promoteStatics_eq_ok hresult]
        obtain ⟨hhoisted, htaken⟩ := hoistStatics_variableHeads h unit f.name
          ((f.body.mapBlocksM Block.takeStatics).run []).2
        refine ⟨List.filterMap_eq_nil_iff.2 fun item hitem => ?_, htaken⟩
        rcases List.mem_append.1 hitem with hitem | hitem
        · obtain ⟨d, hd, rfl⟩ := List.mem_map.1 hitem
          exact hhoisted d hd
        · rw [List.mem_singleton.1 hitem]
          rfl
      refine ensures_bind hf fun here hhere => ?_
      refine ensures_bind (ih hhere.2) fun result hresult => ensures_pure ?_
      rw [List.filterMap_append, hhere.1, hresult]
      rfl

/-- A variable that is declared has its name taken, so no promoted static gets that name. -/
theorem SourceUnit.variableHeads_promoteStatics (hdeclared : u.variableHeads name ≠ [])
    (unit : String) :
    Ensures (u.promoteStatics unit) fun result =>
      result.1.variableHeads name = u.variableHeads name := by
  have htaken : name ∈ u.itemNames := by
    obtain ⟨head, hhead⟩ := List.exists_mem_of_ne_nil _ hdeclared
    obtain ⟨item, hitem, hhead⟩ := List.mem_filterMap.1 hhead
    refine List.mem_filterMap.2 ⟨item, hitem, ?_⟩
    by_contra hname
    rw [Item.variableHead?_of_name_ne hname] at hhead
    cases hhead
  obtain ⟨hglobals, hlast⟩ := promoteGlobals_variableHeads
    (p := ⟨u.itemNames, [], []⟩) htaken unit u.items
  exact ensures_bind (promoteInItems_variableHeads hlast unit _) fun _ hresult =>
    ensures_pure (hresult.trans hglobals)

end Passes

/-! ### Normalization -/

/-- The names of the routines that normalization removes. -/
def droppedNames : List String :=
  errorRoutine :: arrayHelpers

/-- A pass keeps the declarations of a variable. -/
theorem Pass.apply_variableHeads {name : String} (hname : name ∉ droppedNames) {u : SourceUnit}
    (hdeclared : u.variableHeads name ≠ []) (pass : Pass) (context : PassContext)
    (hdefinitions : pass = .mathNames → ∀ f ∈ u.funcs, f.decl.isFunction = true) :
    Ensures (pass.apply context u) fun result =>
      result.1.variableHeads name = u.variableHeads name := by
  cases pass with
  | spelling =>
    exact ensures_pure (u.variableHeads_of_map u.globals_respell Decl.variableHead?_respell)
  | errorCalls =>
    refine ensures_pure (u.variableHeads_removeErrorCalls fun h => hname ?_)
    rw [h]
    exact List.mem_cons_self
  | mathNames =>
    exact ensures_pure (u.variableHeads_of_eq (u.globals_genericMathNames (hdefinitions rfl)))
  | staticStorage => exact ensures_map (u.variableHeads_promoteStatics hdeclared context.baseName)
  | castCalls =>
    exact ensures_pure (u.variableHeads_of_map u.globals_castsToCalls
      (Decl.variableHead?_mapExprsM _))
  | absIdiom | oddIdiom =>
    exact ensures_pure (u.variableHeads_of_eq (u.globals_foldIdiom _ _))
  | jumps =>
    exact ensures_map fun result h => u.variableHeads_of_eq (u.globals_eliminateJumps result h)
  | loops =>
    exact ensures_map fun result h =>
      u.variableHeads_of_eq (u.globals_boundLoops context.pool result h)
  | recursion => exact ensures_pure (u.variableHeads_of_eq u.globals_unrollRecursion)
  | coefficientArrays =>
    refine ensures_map (u.variableHeads_specializeHelpers fun h => hname ?_)
    exact List.mem_cons_of_mem _ h
  | coercions =>
    exact ensures_pure (u.variableHeads_of_map u.globals_coerced (Decl.variableHead?_coerced _))

/-- The declarations of a variable after normalization. -/
theorem normalize_variableHeads {base name : String} {capacity : Nat} {u t : SourceUnit}
    {report : Report} (hname : name ∉ droppedNames) (hdeclared : u.variableHeads name ≠ [])
    (hdefinitions : ∀ f ∈ u.funcs, f.decl.isFunction = true)
    (h : normalize { baseName := base, capacity } u = .ok (t, report)) :
    t.variableHeads name = u.variableHeads name := by
  have hrun : Ensures (Pass.applyAll Pass.standard (.new base capacity) u) fun result =>
      result.1.variableHeads name = u.variableHeads name ∧ result.1.DefinesFunctions := by
    -- The pass for math names relies on definitions being what they are.
    refine Pass.ensures_applyAll (I := fun w => w.variableHeads name = u.variableHeads name ∧
      w.DefinesFunctions) (fun pass _ context v hv result hresult => ?_)
      ⟨rfl, SourceUnit.definesFunctions_iff.2 hdefinitions⟩
    have hpass := Pass.apply_variableHeads hname (hv.1 ▸ hdeclared) pass context
      fun _ => SourceUnit.definesFunctions_iff.1 hv.2
    exact ⟨(hpass result hresult).trans hv.1,
      pass.apply_definesFunctions hv.2 context result hresult⟩
  obtain ⟨result, hresult, h⟩ := Except.bind_eq_ok h
  have ht : result.1 = t := congrArg Prod.fst (Except.ok.inj h)
  exact ht ▸ (hrun result hresult).1

/-- Definitions are what they are after normalization. -/
theorem normalize_definesFunctions {base : String} {capacity : Nat} {u t : SourceUnit}
    {report : Report} (hu : u.DefinesFunctions)
    (h : normalize { baseName := base, capacity } u = .ok (t, report)) : t.DefinesFunctions := by
  have hrun : Ensures (Pass.applyAll Pass.standard (.new base capacity) u) fun result =>
      result.1.DefinesFunctions :=
    Pass.ensures_applyAll (fun pass _ context v hv => pass.apply_definesFunctions hv context) hu
  obtain ⟨result, hresult, h⟩ := Except.bind_eq_ok h
  have ht : result.1 = t := congrArg Prod.fst (Except.ok.inj h)
  exact ht ▸ hrun result hresult

/-- What passes and the renaming of math functions keep of each item at file level holds after
normalization. -/
theorem ItemHead.Persists.normalize {P : ItemHead → Prop} (hP : Persists P)
    (hgeneric : ∀ v : SourceUnit, (∀ x ∈ v.heads, P x) → ∀ x ∈ v.genericMathNames.1.heads, P x)
    {base : String} {capacity : Nat} {u t : SourceUnit} {report : Report}
    (hu : ∀ x ∈ u.heads, P x)
    (h : MathKernel.normalize { baseName := base, capacity } u = .ok (t, report)) :
    ∀ x ∈ t.heads, P x := by
  let Q (v : SourceUnit) : Prop := ∀ x ∈ v.heads, P x ∧ x.IsPromoted
  have hrun : Ensures (Pass.applyAll Pass.standard (.new base capacity) u) fun result =>
      Q result.1 := by
    refine Pass.ensures_applyAll_cons (Q := Q) (fun v => ∀ x ∈ v.heads, P x) ?_
      fun context v hv => ?_
    · refine ensures_pure ?_
      rw [SourceUnit.heads_respell]
      exact hu
    refine Pass.ensures_applyAll_cons (Q := Q) (fun v => ∀ x ∈ v.heads, P x)
      (ensures_pure (hP.of_headsFollow v.removeErrorCalls_headsFollow hv)) fun context v hv => ?_
    refine Pass.ensures_applyAll_cons (Q := Q) (fun v => ∀ x ∈ v.heads, P x)
      (ensures_pure (hgeneric v hv)) fun context v hv => ?_
    refine Pass.ensures_applyAll_cons (Q := Q) Q
      (ensures_map fun result hresult x hx => ⟨?_, ?_⟩) fun context v hv => ?_
    · have hfollow := v.promoteStatics_headsFollow context.baseName result hresult
      exact hP.of_headsFollow hfollow hv x hx
    · exact v.isPromoted_promoteStatics context.baseName result hresult x hx
    -- From here on items are only renamed, dropped and added.
    refine Pass.ensures_applyAll (I := Q) (fun pass hpass context v hv result hresult => ?_) hv
    have hother : pass ≠ .mathNames := by
      rintro rfl
      exact absurd hpass (by decide)
    have hfollow := Pass.apply_headsFollow hother context (fun _ x hx => (hv x hx).2) result hresult
    have hkept := hP.of_headsFollow hfollow fun x hx => (hv x hx).1
    have hpromoted := persists_isPromoted.of_headsFollow hfollow fun x hx => (hv x hx).2
    exact fun x hx => ⟨hkept x hx, hpromoted x hx⟩
  obtain ⟨result, hresult, h⟩ := Except.bind_eq_ok h
  have ht : result.1 = t := congrArg Prod.fst (Except.ok.inj h)
  exact fun x hx => (hrun result hresult x (ht ▸ hx)).1

/-- Functions get no name that is neither made up nor one of a math function. -/
theorem normalize_avoids {base : String} {capacity : Nat} {u t : SourceUnit} {report : Report}
    {names : List String} (hplain : ∀ n ∈ names, '_' ∉ n.toList)
    (hnames : ∀ entry ∈ mathAliases, entry.2 ∉ names) (hu : u.avoids names)
    (h : normalize { baseName := base, capacity } u = .ok (t, report)) : t.avoids names :=
  SourceUnit.avoids_iff.2 <| (ItemHead.persists_functionAvoids hplain).normalize
    (fun _ hv => SourceUnit.functionAvoids_genericMathNames hnames hv)
    (SourceUnit.avoids_iff.1 hu) h

/-- Nothing at file level has one of the names, and nothing that has a name is static. -/
def SourceUnit.IsTrimmed (names : List String) (u : SourceUnit) : Prop :=
  ∀ x ∈ u.heads, x.Avoids names ∧ x.IsPromoted

theorem SourceUnit.IsTrimmed.apply {names : List String} (hnames : ∀ n ∈ names, '_' ∉ n.toList)
    {u : SourceUnit} (h : u.IsTrimmed names) {pass : Pass} (hpass : pass ≠ .mathNames)
    (context : PassContext) :
    Ensures (pass.apply context u) fun result => result.1.IsTrimmed names := by
  intro result hresult
  have hfollow := Pass.apply_headsFollow hpass context (fun _ x hx => (h x hx).2) result hresult
  have havoids := (ItemHead.persists_avoids hnames).of_headsFollow hfollow fun x hx => (h x hx).1
  have hpromoted := ItemHead.persists_isPromoted.of_headsFollow hfollow fun x hx => (h x hx).2
  exact fun x hx => ⟨havoids x hx, hpromoted x hx⟩

theorem normalize_isTrimmed {base : String} {capacity : Nat} {u t : SourceUnit} {report : Report}
    (h : normalize { baseName := base, capacity } u = .ok (t, report)) :
    t.IsTrimmed droppedNames := by
  have hrun : Ensures (Pass.applyAll Pass.standard (.new base capacity) u) fun result =>
      result.1.IsTrimmed droppedNames := by
    -- The routine for errors goes first, then the statics, and the helpers for arrays at the end:
    -- each pass in between keeps what the ones before it reached.
    refine Pass.ensures_applyAll_cons (fun _ => True) (fun _ _ => trivial) fun context v _ => ?_
    refine Pass.ensures_applyAll_cons (fun w => ∀ x ∈ w.heads, x.Avoids [errorRoutine])
      (ensures_pure v.avoids_removeErrorCalls) fun context w hw => ?_
    refine Pass.ensures_applyAll_cons (fun w => ∀ x ∈ w.heads, x.Avoids [errorRoutine])
      (ensures_pure (SourceUnit.avoids_genericMathNames (by decide) hw)) fun context w hw => ?_
    refine Pass.ensures_applyAll_cons (SourceUnit.IsTrimmed [errorRoutine])
      (ensures_map fun result hresult x hx => ⟨?_, ?_⟩) fun context w hw => ?_
    · exact (ItemHead.persists_avoids (by decide)).of_headsFollow
        (w.promoteStatics_headsFollow context.baseName result hresult) hw x hx
    · exact w.isPromoted_promoteStatics context.baseName result hresult x hx
    rw [← Pass.castCalls_to_recursion_append]
    refine Pass.ensures_applyAll_append (SourceUnit.IsTrimmed [errorRoutine]) ?_
      fun context w hw => ?_
    · refine Pass.ensures_applyAll (fun pass hpass context v hv =>
        hv.apply (by decide) ?_ context) hw
      rintro rfl
      exact absurd hpass (by decide)
    refine Pass.ensures_applyAll_cons (SourceUnit.IsTrimmed droppedNames) ?_ fun context w hw => ?_
    · have herror : Ensures (Pass.coefficientArrays.apply context w) fun result =>
          result.1.IsTrimmed [errorRoutine] := hw.apply (by decide) (by decide) context
      have hhelpers : Ensures (Pass.coefficientArrays.apply context w) fun result =>
          ∀ x ∈ result.1.heads, x.Avoids arrayHelpers := ensures_map w.avoids_specializeHelpers
      intro result hresult x hx
      refine ⟨fun n hn hdropped => ?_, (herror result hresult x hx).2⟩
      rcases List.mem_cons.1 hdropped with rfl | hhelper
      · exact (herror result hresult x hx).1 _ hn List.mem_cons_self
      · exact hhelpers result hresult x hx n hn hhelper
    refine Pass.ensures_applyAll (fun pass hpass context v hv =>
      hv.apply (by decide) ?_ context) hw
    rw [List.mem_singleton.1 hpass]
    decide
  obtain ⟨result, hresult, h⟩ := Except.bind_eq_ok h
  have ht : result.1 = t := congrArg Prod.fst (Except.ok.inj h)
  exact ht ▸ hrun result hresult

end MathKernel
