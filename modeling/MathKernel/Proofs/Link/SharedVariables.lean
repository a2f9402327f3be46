import MathKernel.Proofs.Link.Reduction
import MathKernel.Proofs.Normalize.Variables

/-!
# Variables shared between units

A unit refers to a variable that another unit defines by an external declaration. Each unit is
compiled alone and says what kind of kernel it expects under the name: an external declaration
counts as one of a constant, unless the name is listed as a variable's. So the unit that defines
the variable has to take it for a constant too, which it does if it initializes it.

## Main results

* `exists_mem_extractItems` — a definition gives a kernel of the kind of its name
* `Linker.resolve_error` — an error of a resolution is one of a function it visits
* `Linker.resolve_ne_missing` — the kernel of a shared variable is found
-/

namespace MathKernel

/-! ### Kernels of definitions -/

section Extraction

variable {globals : GlobalNames} {x : String}

/-- The kind of kernel that is expected under a name of the file. -/
def GlobalNames.kindOf (globals : GlobalNames) (x : String) : KernelKind :=
  if x ∈ globals.vars then .var else .constant

theorem GlobalNames.record_kind (globals : GlobalNames) (v : ValueKernel) :
    (globals.record v).kind = globals.kindOf v.name := by
  simp only [record, kindOf, List.contains_iff_mem]
  split <;> rfl

/-- A variable that is declared here and not elsewhere has a kernel. -/
theorem exists_mem_extractItems {known : KnownConstants Binary64} {items : List Item}
    {kernels : List Kernel} (h : extractItems globals known items = .ok kernels) {d : Decl}
    (hd : .decl d ∈ items) (hfunction : d.isFunction = false) (hexternal : d.isExternal = false)
    (hname : d.name = some x) : ∃ k ∈ kernels, k.name = x ∧ k.kind = globals.kindOf x := by
  induction items generalizing known kernels with
  | nil => cases hd
  | cons item rest ih =>
    obtain ⟨hnothing, h⟩ | ⟨k, others, hgives, hothers, rfl⟩ := extractItems_cons_eq_ok h
    · rcases List.mem_cons.1 hd with rfl | hrest
      · simp [Item.GivesNothing, hfunction, hexternal, hname] at hnothing
      · exact ih h hrest
    rcases List.mem_cons.1 hd with rfl | hrest
    · cases hgives with
      | @value _ v _ _ hvname _ =>
        obtain rfl : v.name = x := Option.some.inj (hvname.symm.trans hname)
        exact ⟨_, List.mem_cons_self, globals.record_name v, globals.record_kind v⟩
    · obtain ⟨k', hk, hkind⟩ := ih hothers hrest
      exact ⟨k', List.mem_cons_of_mem _ hk, hkind⟩

theorem SourceUnit.mem_vars_globalNames {u : SourceUnit} {listed : List String} :
    x ∈ (u.globalNames listed).vars ↔
      ∃ d ∈ u.globals, d.name = some x ∧ (x ∈ listed ∨ d.init = none ∧ d.isExternal = false) := by
  simp only [SourceUnit.globalNames, List.mem_filterMap, List.mem_filter]
  constructor
  · rintro ⟨d, ⟨hd, hvar⟩, hname⟩
    exact ⟨d, hd, hname, by simpa [Decl.isVariable, hname] using hvar⟩
  · rintro ⟨d, hd, hname, hvar⟩
    exact ⟨d, ⟨hd, by simpa [Decl.isVariable, hname] using hvar⟩, hname⟩

end Extraction

/-- A reduction to exports, if there is one, drops no kernel of the name. -/
def SourceUnit.KeepsKernels (config : ExtractConfig) (x : String) (u : SourceUnit) : Prop :=
  ∀ exports ∈ config.exports, ∀ kernels, u.extract { config with exports := none } = .ok kernels →
    Linker.IsKeptFrom exports kernels x

section Batches

variable {u : SourceUnit} {config : ExtractConfig} {batch : List Kernel} {x : String}

/-- The kernels of a batch are among those of the unit. -/
theorem SourceUnit.extract_eq_ok (h : u.extract config = .ok batch) :
    ∃ kernels, u.extract { config with exports := none } = .ok kernels ∧
      extractItems (u.globalNames config.vars) [] u.items = .ok kernels ∧
      batch = match config.exports with
        | some exports => retainReachable exports kernels
        | none => kernels := by
  obtain ⟨kernels, hkernels, h⟩ := Except.bind_eq_ok h
  refine ⟨kernels, ?_, hkernels, (Except.ok.inj h).symm⟩
  rw [SourceUnit.extract, hkernels]
  rfl

theorem SourceUnit.isFrom_of_mem_batch (h : u.extract config = .ok batch) {k : Kernel}
    (hk : k ∈ batch) : k.IsFrom (u.globalNames config.vars) u.items := by
  obtain ⟨kernels, -, hkernels, rfl⟩ := SourceUnit.extract_eq_ok h
  apply isFrom_of_mem_extractItems hkernels
  split at hk
  · exact List.mem_of_mem_filter hk
  · exact hk

theorem SourceUnit.KeepsKernels.exists_mem (hkeeps : u.KeepsKernels config x)
    (h : u.extract config = .ok batch) {d : Decl} (hd : d ∈ u.globals)
    (hexternal : d.isExternal = false) (hname : d.name = some x) :
    ∃ k ∈ batch, k.name = x ∧ k.kind = (u.globalNames config.vars).kindOf x := by
  obtain ⟨kernels, hwhole, hkernels, rfl⟩ := SourceUnit.extract_eq_ok h
  obtain ⟨hitem, hfunction⟩ := SourceUnit.mem_globals.1 hd
  obtain ⟨k, hk, hkname, hkind⟩ :=
    exists_mem_extractItems hkernels hitem hfunction hexternal hname
  refine ⟨k, ?_, hkname, hkind⟩
  split
  · next exports hexports => exact hkeeps exports hexports kernels hwhole k hk hkname
  · exact hk

theorem FuncDef.mem_constants_of_mem_dependencies {globals : GlobalNames} {f : FuncDef}
    (h : x ∈ (f.dependencies globals).ofKind .constant) :
    x ∈ globals.constants ∨ x ∈ builtinConstants := by
  obtain ⟨⟨hidden, e⟩, -, href⟩ := FuncDef.mem_dependencies.1 h
  cases e with
  | id name c => grind [Expr.reference?]
  | _ => simp [Expr.reference?] at href

/-- The kind under which a function of the batch refers to a name is the unit's. -/
theorem SourceUnit.kind_of_mem_deps (h : u.extract config = .ok batch) {k : FunctionKernel}
    (hk : .function k ∈ batch) {kind : KernelKind} (hkind : kind ≠ .function)
    (hx : x ∈ k.deps.ofKind kind) :
    kind = (u.globalNames config.vars).kindOf x ∧
      (x ∈ builtinConstants ∨ ∃ d ∈ u.globals, d.name = some x) := by
  obtain ⟨f, -, hcode⟩ := SourceUnit.isFrom_of_mem_batch h hk
  rw [(FuncDef.toKernel_eq hcode).2.1] at hx
  cases kind with
  | function => exact absurd rfl hkind
  | var =>
    have hvar := FuncDef.mem_vars_of_mem_dependencies hx
    exact ⟨(if_pos hvar).symm, .inr (SourceUnit.mem_globalNames.1 (.inl hvar))⟩
  | constant =>
    have hvar := FuncDef.not_mem_vars_of_mem_dependencies hx
    refine ⟨(if_neg hvar).symm, ?_⟩
    rcases FuncDef.mem_constants_of_mem_dependencies hx with hconstant | hbuiltin
    · exact .inr (SourceUnit.mem_globalNames.1 (.inr hconstant))
    · exact .inl hbuiltin

end Batches

/-! ### Errors of a resolution -/

namespace Linker

variable {l : Linker} {entry x : String} {e : LinkError}

/-- An error comes from a check of a function that is visited. -/
theorem resolveSteps_error {n : Nat} {p : Progress} (h : l.resolveSteps n p = .error e) :
    ∃ f k, l.function? f = some k ∧ l.checkDeps k f = .error e := by
  induction n generalizing p with
  | zero => cases h
  | succ n ih =>
    unfold resolveSteps at h
    split at h
    · cases h
    · next name rest hqueue =>
      split at h
      · exact ih h
      · next k hk =>
        cases hcheck : l.checkDeps k name with
        | error e' =>
          rw [hcheck] at h
          cases h
          exact ⟨name, k, hk, hcheck⟩
        | ok _ =>
          rw [hcheck] at h
          exact ih h

/-- A resolution fails since the entry point is unknown, or with an error that some function
explains. -/
theorem resolve_error (h : l.resolve entry = .error e) :
    e = .unknownEntry entry ∨ ∃ f, l.Explains f e := by
  unfold resolve at h
  split at h
  · obtain ⟨f, k, hk, hcheck⟩ := resolveSteps_error h
    have hhas : l.has .function f = true :=
      has_iff_kernel?.2 ⟨.function k, by rw [kernel?, hk]; rfl⟩
    exact .inr ⟨f, checkDeps_error hk hhas .refl hcheck⟩
  · cases h
    exact .inl rfl

/-- What is registered stays registered, under the kind and name it has. -/
theorem has_registerAll {kernels : List Kernel} {kind : KernelKind}
    (h : l.has kind x = true ∨ ∃ k ∈ kernels, k.kind = kind ∧ k.name = x) :
    (l.registerAll kernels).has kind x = true := by
  induction kernels generalizing l with
  | nil => exact h.resolve_right (by simp)
  | cons k rest ih =>
    apply ih
    rw [has_iff_kernel?, kernel?_register]
    by_cases hk : kind = k.kind ∧ x = k.name
    · exact .inl ⟨k, if_pos hk⟩
    · rw [if_neg hk, ← has_iff_kernel?]
      rcases h with h | ⟨k', hk', hkind, hname⟩
      · exact .inl h
      · rcases List.mem_cons.1 hk' with rfl | hk'
        · exact absurd ⟨hkind.symm, hname.symm⟩ hk
        · exact .inr ⟨k', hk', hkind, hname⟩

theorem has_withBuiltins {kernels : List Kernel} {k : Kernel} (hk : k ∈ builtinKernels ++ kernels) :
    (withBuiltins.registerAll kernels).has k.kind k.name = true := by
  apply has_registerAll
  rcases List.mem_append.1 hk with hk | hk
  · exact .inl (has_registerAll (.inr ⟨k, hk, rfl, rfl⟩))
  · exact .inr ⟨k, hk, rfl, rfl⟩

theorem builtinKernels_deps {k : FunctionKernel} (hk : .function k ∈ builtinKernels)
    (kind : KernelKind) : k.deps.ofKind kind = [] := by
  have hnames : k.deps.names = [] := builtinKernels_references _ hk
  simp only [Dependencies.names, List.append_eq_nil_iff] at hnames
  cases kind with
  | function => exact hnames.1.1
  | constant => exact hnames.1.2
  | var => exact hnames.2

/-- What functions refer to is found if each function that is registered finds it. -/
theorem has_of_mem_refs {kernels : List Kernel} {kind : KernelKind} {f : String}
    (h : ∀ k, .function k ∈ kernels → x ∈ k.deps.ofKind kind →
      ∃ k' ∈ builtinKernels ++ kernels, k'.kind = kind ∧ k'.name = x)
    (hrefs : x ∈ (withBuiltins.registerAll kernels).refs kind f) :
    (withBuiltins.registerAll kernels).has kind x = true := by
  unfold refs at hrefs
  split at hrefs
  · next k hk =>
    have hkernel : (withBuiltins.registerAll kernels).kernel? .function f = some (.function k) := by
      rw [kernel?, hk]
      rfl
    rcases List.mem_append.1 (kernel?_withBuiltins hkernel).1 with hbuiltin | hbatch
    · rw [builtinKernels_deps hbuiltin] at hrefs
      cases hrefs
    · obtain ⟨k', hk', rfl, rfl⟩ := h k hbatch hrefs
      exact has_withBuiltins hk'
  · cases hrefs

end Linker

/-! ### The kernel of a shared variable -/

section Units

variable {config : ExtractConfig} {x : String} {u t : SourceUnit} {batch : List Kernel}

theorem SourceUnit.mem_variableHeads {head : VariableHead} :
    head ∈ u.variableHeads x ↔ ∃ d ∈ u.globals, d.name = some x ∧ d.isStatic = false ∧
      (⟨d.isExternal, d.init.isSome⟩ : VariableHead) = head := by
  rw [SourceUnit.variableHeads, List.mem_filterMap]
  constructor
  · rintro ⟨item, hitem, hhead⟩
    cases item with
    | decl d =>
      obtain ⟨⟨hfunction, hstatic, hname⟩, hhead⟩ := Decl.variableHead?_eq_some.1 hhead
      exact ⟨d, SourceUnit.mem_globals.2 ⟨hitem, hfunction⟩, hname, hstatic, hhead⟩
    | func f => cases hhead
  · rintro ⟨d, hd, hname, hstatic, hhead⟩
    obtain ⟨hitem, hfunction⟩ := SourceUnit.mem_globals.1 hd
    exact ⟨.decl d, hitem, Decl.variableHead?_eq_some.2 ⟨⟨hfunction, hstatic, hname⟩, hhead⟩⟩

/-- In a normalized unit variables have none of the dropped names and are not static. -/
theorem SourceUnit.IsTrimmed.of_mem_globals (h : t.IsTrimmed droppedNames) {d : Decl}
    (hd : d ∈ t.globals) (hname : d.name = some x) :
    x ∉ droppedNames ∧ d.isStatic = false := by
  obtain ⟨hitem, -⟩ := SourceUnit.mem_globals.1 hd
  obtain ⟨havoids, hpromoted⟩ := h _ (List.mem_map_of_mem hitem)
  refine ⟨havoids x hname, Bool.eq_false_iff.2 fun hstatic => ?_⟩
  obtain ⟨-, -, hnone⟩ := hpromoted hstatic
  have hnone : d.name = none := hnone
  rw [hname] at hnone
  cases hnone

/-- The kernel of a variable that a unit defines is a variable's if the name is listed, and a
constant's if it is not and all definitions are initialized. -/
theorem SourceUnit.exists_kernel_of_defined {base : String} {capacity : Nat} {report : Report}
    (hdefinitions : ∀ f ∈ u.funcs, f.decl.isFunction = true)
    (hnormal : normalize { baseName := base, capacity } u = .ok (t, report))
    (hbatch : t.extract config = .ok batch) (hkeeps : t.KeepsKernels config x)
    (hdefined : ∃ d ∈ u.globals, d.name = some x ∧ d.isStatic = false ∧ d.isExternal = false)
    (hinit : x ∈ config.vars ∨ ∀ d ∈ u.globals, d.name = some x → d.isStatic = false →
      d.isExternal = false → d.init.isSome = true) (hx : x ∉ droppedNames) :
    ∃ k ∈ batch, k.name = x ∧ k.kind = if x ∈ config.vars then .var else .constant := by
  have htrimmed := normalize_isTrimmed hnormal
  obtain ⟨d, hd, hname, hstatic, hexternal⟩ := hdefined
  have hmem : ⟨d.isExternal, d.init.isSome⟩ ∈ u.variableHeads x :=
    SourceUnit.mem_variableHeads.2 ⟨d, hd, hname, hstatic, rfl⟩
  have hheads := normalize_variableHeads hx (List.ne_nil_of_mem hmem) hdefinitions hnormal
  -- The definition is still there, and every other one of the name was there before.
  rw [← hheads] at hmem
  obtain ⟨d', hd', hname', -, hhead⟩ := SourceUnit.mem_variableHeads.1 hmem
  have hexternal' : d'.isExternal = false :=
    (congrArg VariableHead.isExternal hhead).trans hexternal
  obtain ⟨k, hk, hkname, hkind⟩ := hkeeps.exists_mem hbatch hd' hexternal' hname'
  refine ⟨k, hk, hkname, hkind.trans ?_⟩
  by_cases hlisted : x ∈ config.vars
  · rw [if_pos hlisted]
    exact if_pos (SourceUnit.mem_vars_globalNames.2 ⟨d', hd', hname', .inl hlisted⟩)
  · rw [if_neg hlisted]
    refine if_neg fun hvar => ?_
    obtain ⟨v, hv, hvname, hvar⟩ := SourceUnit.mem_vars_globalNames.1 hvar
    obtain ⟨hnone, hvexternal⟩ := hvar.resolve_left hlisted
    have hvstatic := (htrimmed.of_mem_globals hv hvname).2
    have hbefore : ⟨v.isExternal, v.init.isSome⟩ ∈ u.variableHeads x := by
      rw [← hheads]
      exact SourceUnit.mem_variableHeads.2 ⟨v, hv, hvname, hvstatic, rfl⟩
    obtain ⟨w, hw, hwname, hwstatic, hsame⟩ := SourceUnit.mem_variableHeads.1 hbefore
    have hwexternal : w.isExternal = false :=
      (congrArg VariableHead.isExternal hsame).trans hvexternal
    have hwinit := hinit.resolve_left hlisted w hw hwname hwstatic hwexternal
    have hvinit : w.init.isSome = v.init.isSome := congrArg VariableHead.isInitialized hsame
    rw [hwinit, hnone] at hvinit
    cases hvinit

/-- What a function of a batch expects under a name is in the batch, unless all declarations of
the name are external; then it is what the list of variables says. -/
theorem SourceUnit.exists_kernel_of_mem_deps (htrimmed : t.IsTrimmed droppedNames)
    (hbatch : t.extract config = .ok batch)
    (hkeeps : (∃ d ∈ t.globals, d.name = some x ∧ d.isExternal = false) → t.KeepsKernels config x)
    {defining : List Kernel} (hdefining : x ∉ droppedNames → ∃ k ∈ defining, k.name = x ∧
      k.kind = if x ∈ config.vars then .var else .constant) {k : FunctionKernel}
    (hk : .function k ∈ batch) {kind : KernelKind} (hkind : kind ≠ .function)
    (hx : x ∈ k.deps.ofKind kind) :
    ∃ k' ∈ builtinKernels ++ (batch ++ defining), k'.kind = kind ∧ k'.name = x := by
  obtain ⟨rfl, hdeclared⟩ := SourceUnit.kind_of_mem_deps hbatch hk hkind hx
  by_cases hown : ∃ d ∈ t.globals, d.name = some x ∧ d.isExternal = false
  · obtain ⟨d, hd, hname, hexternal⟩ := hown
    obtain ⟨k', hk', hkname, hkkind⟩ :=
      (hkeeps ⟨d, hd, hname, hexternal⟩).exists_mem hbatch hd hexternal hname
    exact ⟨k', by simp [hk'], hkkind, hkname⟩
  -- Without a definition of its own, the unit says by its list what it expects.
  have hlist : (t.globalNames config.vars).kindOf x = .var → x ∈ config.vars := by
    intro hvar
    have hmem : x ∈ (t.globalNames config.vars).vars := by
      by_contra hmem
      rw [GlobalNames.kindOf, if_neg hmem] at hvar
      cases hvar
    obtain ⟨d, hd, hname, hlisted | ⟨-, hexternal⟩⟩ := SourceUnit.mem_vars_globalNames.1 hmem
    · exact hlisted
    · exact absurd ⟨d, hd, hname, hexternal⟩ hown
  by_cases hglobal : ∃ d ∈ t.globals, d.name = some x
  · obtain ⟨d, hd, hname⟩ := hglobal
    obtain ⟨k', hk', hkname, hkkind⟩ := hdefining (htrimmed.of_mem_globals hd hname).1
    refine ⟨k', by simp [hk'], hkkind.trans ?_, hkname⟩
    by_cases hlisted : x ∈ config.vars
    · rw [if_pos hlisted]
      exact (if_pos (SourceUnit.mem_vars_globalNames.2 ⟨d, hd, hname, .inl hlisted⟩)).symm
    · rw [if_neg hlisted]
      exact (if_neg fun hmem => hlisted (hlist (if_pos hmem))).symm
  · -- Not-a-number is the one name that need not be declared.
    have hbuiltin : ∃ k' ∈ builtinKernels, k'.kind = .constant ∧ k'.name = notANumber := by
      decide +kernel
    obtain ⟨k', hk', hkkind, hkname⟩ := hbuiltin
    have hname : x = notANumber := by simpa [builtinConstants] using hdeclared.resolve_right hglobal
    refine ⟨k', by simp [hk'], hkkind.trans (if_neg fun hmem => hglobal ?_).symm, ?_⟩
    · exact SourceUnit.mem_globalNames.1 (.inl hmem)
    · rw [hkname, hname]

end Units

namespace Linker

/-- Two units are compiled with one list of variables and one of exports. If the first defines a
variable, with an initializer or under a listed name, and no kernel of that name is lost to the
exports, then over the built-in kernels and both batches, in either order, no resolution lacks the
variable: not for a function of the second unit that declares it external, nor for any other. The
second unit may define the variable as well, but has to keep its kernels then. -/
theorem resolve_ne_missing {config : ExtractConfig} {x : String} {a ta b tb : SourceUnit}
    {nameA nameB : String} {capacityA capacityB : Nat} {reportA reportB : Report}
    {batchA batchB batches : List Kernel}
    (ha : normalize { baseName := nameA, capacity := capacityA } a = .ok (ta, reportA))
    (hb : normalize { baseName := nameB, capacity := capacityB } b = .ok (tb, reportB))
    (hbatchA : ta.extract config = .ok batchA) (hbatchB : tb.extract config = .ok batchB)
    (hdefinitions : ∀ f ∈ a.funcs, f.decl.isFunction = true)
    (hdefined : ∃ d ∈ a.globals, d.name = some x ∧ d.isStatic = false ∧ d.isExternal = false)
    (hinit : x ∈ config.vars ∨ ∀ d ∈ a.globals, d.name = some x → d.isStatic = false →
      d.isExternal = false → d.init.isSome = true)
    (hkeepsA : ta.KeepsKernels config x)
    (hkeepsB : (∃ d ∈ tb.globals, d.name = some x ∧ d.isExternal = false) →
      tb.KeepsKernels config x)
    (hbatches : batches = batchA ++ batchB ∨ batches = batchB ++ batchA)
    (entry requiredBy : String) :
    (withBuiltins.registerAll batches).resolve entry ≠ .error (.missingConstant x requiredBy) ∧
      (withBuiltins.registerAll batches).resolve entry ≠
        .error (.missingVariable x requiredBy) := by
  have hdefining :=
    SourceUnit.exists_kernel_of_defined hdefinitions ha hbatchA hkeepsA hdefined hinit
  have hboth : batchA ⊆ batches ∧ batchB ⊆ batches ∧ ∀ k ∈ batches, k ∈ batchA ∨ k ∈ batchB := by
    rcases hbatches with rfl | rfl
    · exact ⟨List.subset_append_left _ _, List.subset_append_right _ _, fun k => List.mem_append.1⟩
    · exact ⟨List.subset_append_right _ _, List.subset_append_left _ _,
        fun k hk => (List.mem_append.1 hk).symm⟩
  obtain ⟨hsubA, hsubB, hmem⟩ := hboth
  have hwithin {kernels : List Kernel} (h : kernels ⊆ batches) :
      builtinKernels ++ kernels ⊆ builtinKernels ++ batches :=
    List.append_subset.2 ⟨List.subset_append_left _ _, fun k hk => List.mem_append_right _ (h hk)⟩
  have hprovided (kind : KernelKind) (hkind : kind ≠ .function) (k : FunctionKernel)
      (hk : .function k ∈ batches) (hx : x ∈ k.deps.ofKind kind) :
      ∃ k' ∈ builtinKernels ++ batches, k'.kind = kind ∧ k'.name = x := by
    rcases hmem _ hk with hk | hk
    · obtain ⟨k', hk', hfound⟩ := SourceUnit.exists_kernel_of_mem_deps (normalize_isTrimmed ha)
        hbatchA (fun _ => hkeepsA) hdefining hk hkind hx
      exact ⟨k', hwithin (List.append_subset.2 ⟨hsubA, hsubA⟩) hk', hfound⟩
    · obtain ⟨k', hk', hfound⟩ := SourceUnit.exists_kernel_of_mem_deps (normalize_isTrimmed hb)
        hbatchB hkeepsB hdefining hk hkind hx
      exact ⟨k', hwithin (List.append_subset.2 ⟨hsubB, hsubA⟩) hk', hfound⟩
  constructor
  · intro herror
    rcases resolve_error herror with hunknown | ⟨f, -, -, hrefs, hlacks⟩
    · cases hunknown
    · exact Bool.false_ne_true
        (hlacks.symm.trans (has_of_mem_refs (hprovided .constant (by decide)) hrefs))
  · intro herror
    rcases resolve_error herror with hunknown | ⟨f, -, -, hrefs, hlacks⟩
    · cases hunknown
    · exact Bool.false_ne_true
        (hlacks.symm.trans (has_of_mem_refs (hprovided .var (by decide)) hrefs))

/-! ### Two units with one variable -/

/-- The kernels of a unit under the standard passes. -/
def kernels? (name : String) (config : ExtractConfig) (u : SourceUnit) : Option (List Kernel) :=
  (normalize { baseName := name } u).toOption.bind fun result =>
    (result.1.extract config).toOption

theorem exists_of_kernels? {name : String} {config : ExtractConfig} {u : SourceUnit}
    {batch : List Kernel} (h : kernels? name config u = some batch) :
    ∃ t report, normalize { baseName := name } u = .ok (t, report) ∧
      t.extract config = .ok batch := by
  obtain ⟨⟨t, report⟩, hnormal, hbatch⟩ := Option.bind_eq_some_iff.1 h
  exact ⟨t, report, Except.eq_ok_of_toOption hnormal, Except.eq_ok_of_toOption hbatch⟩

/-- `float g = 2.0;` -/
def initializedG : Item :=
  .decl (.ofScalar "g" .float (some (.float "2.0" none)))

/-- `float g;` -/
def tentativeG : Item :=
  .decl (.ofScalar "g" .float none)

/-- `extern float g; float f(float a) { return a * g; }` -/
def externalUse : SourceUnit where
  items := [
    .decl { Decl.ofScalar "g" .float none with storage := [.external] },
    .func {
      decl := .prototype "f" .float [.ofScalar "a" .float none]
      body.items := [.ret (some (.binary .mul (.id "a" none) (.id "g" none) none)) none]
      body.coord := none
      coord := none }]
  coord := none

theorem resolve_ne_missing_externalUse :
    ∃ batchA batchB k, kernels? "a" {} ⟨[initializedG], none⟩ = some batchA ∧
      kernels? "b" {} externalUse = some batchB ∧ .function k ∈ batchB ∧ k.name = "f" ∧
      "g" ∈ k.deps.ofKind .constant ∧
      (withBuiltins.registerAll (batchA ++ batchB)).resolve "f" ≠
        .error (.missingConstant "g" "f") ∧
      (withBuiltins.registerAll (batchA ++ batchB)).resolve "f" ≠
        .error (.missingVariable "g" "f") := by
  have hdefining : (kernels? "a" {} ⟨[initializedG], none⟩).isSome := by decide +kernel
  have husing : ((kernels? "b" {} externalUse).bind fun batch =>
      (batch.filterMap Kernel.function?).find? fun k =>
        k.name = "f" ∧ "g" ∈ k.deps.ofKind .constant).isSome := by decide +kernel
  obtain ⟨batchA, hbatchA⟩ := Option.isSome_iff_exists.1 hdefining
  obtain ⟨k, husing⟩ := Option.isSome_iff_exists.1 husing
  obtain ⟨batchB, hbatchB, hfind⟩ := Option.bind_eq_some_iff.1 husing
  have hk : .function k ∈ batchB := by
    obtain ⟨kernel, hkernel, hfunction⟩ := List.mem_filterMap.1 (List.mem_of_find?_eq_some hfind)
    cases kernel with
    | function k' => exact Option.some.inj hfunction ▸ hkernel
    | _ => cases hfunction
  have hrefers : k.name = "f" ∧ "g" ∈ k.deps.ofKind .constant := by
    simpa using List.find?_some hfind
  obtain ⟨ta, reportA, ha, hextractA⟩ := exists_of_kernels? hbatchA
  obtain ⟨tb, reportB, hb, hextractB⟩ := exists_of_kernels? hbatchB
  exact ⟨batchA, batchB, k, hbatchA, hbatchB, hk, hrefers.1, hrefers.2,
    resolve_ne_missing ha hb hextractA hextractB (by decide) (by decide) (by decide) nofun
      (fun _ => nofun) (.inl rfl) "f" "f"⟩

/-- The entry point refers to one constant alone, and there is no kernel for that one. -/
def LacksConstant (entry x : String) (kernels : List Kernel) : Prop :=
  (∃ k ∈ kernels, k.kind = .function ∧ k.name = entry) ∧
    ∀ k ∈ kernels, ¬ (k.kind = .constant ∧ k.name = x) ∧ (k.name = entry → ∀ f ∈ k.function?,
      f.deps.functions.toList = [] ∧ f.deps.constants.toList = [x])

instance (entry x : String) (kernels : List Kernel) : Decidable (LacksConstant entry x kernels) :=
  inferInstanceAs (Decidable (_ ∧ _))

theorem LacksConstant.resolve_eq {entry x : String} {kernels : List Kernel}
    (h : LacksConstant entry x (builtinKernels ++ kernels)) :
    (withBuiltins.registerAll kernels).resolve entry = .error (.missingConstant x entry) := by
  obtain ⟨⟨k', hk', hkind, rfl⟩, hall⟩ := h
  have hentry := has_withBuiltins hk'
  rw [hkind] at hentry
  obtain ⟨k, hk⟩ := function?_of_has hentry
  have hkernel : (withBuiltins.registerAll kernels).kernel? .function k'.name =
      some (.function k) := by
    rw [kernel?, hk]
    rfl
  obtain ⟨hmem, -, hname⟩ := kernel?_withBuiltins hkernel
  obtain ⟨hfunctions, hconstants⟩ := (hall _ hmem).2 hname k rfl
  have hmissing : (withBuiltins.registerAll kernels).constants.contains x = false := by
    by_contra hcontains
    have hhas : (withBuiltins.registerAll kernels).has .constant x = true :=
      Bool.not_eq_false _ ▸ hcontains
    obtain ⟨c, hc⟩ := has_iff_kernel?.1 hhas
    obtain ⟨hmem, hkind⟩ := kernel?_withBuiltins hc
    exact (hall c hmem).1 hkind
  have hcheck : (withBuiltins.registerAll kernels).checkDeps k k'.name =
      .error (.missingConstant x k'.name) := by
    rw [checkDeps, hfunctions, hconstants, List.find?_nil]
    simp [hmissing]
  rw [resolve_eq_resolveSteps hentry (Nat.le_succ _), resolveSteps_cons rfl hk, hcheck]
  rfl

/-- With the definitions in one unit and the use in another, the constant is not found. -/
def FailsToLink (config : ExtractConfig) (definitions : List Item) : Prop :=
  ∃ batchA batchB, kernels? "a" config ⟨definitions, none⟩ = some batchA ∧
    kernels? "b" config externalUse = some batchB ∧
    (withBuiltins.registerAll (batchA ++ batchB)).resolve "f" = .error (.missingConstant "g" "f")

theorem failsToLink_of_lacks {config : ExtractConfig} {definitions : List Item}
    (h : ((kernels? "a" config ⟨definitions, none⟩).bind fun a =>
      (kernels? "b" config externalUse).bind fun b =>
        if LacksConstant "f" "g" (builtinKernels ++ (a ++ b)) then some (a, b) else none).isSome) :
    FailsToLink config definitions := by
  obtain ⟨batches, hbatches⟩ := Option.isSome_iff_exists.1 h
  obtain ⟨batchA, hbatchA, hbatches⟩ := Option.bind_eq_some_iff.1 hbatches
  obtain ⟨batchB, hbatchB, hbatches⟩ := Option.bind_eq_some_iff.1 hbatches
  obtain ⟨hlacks, -⟩ := Option.ite_none_right_eq_some.1 hbatches
  exact ⟨batchA, batchB, hbatchA, hbatchB, hlacks.resolve_eq⟩

/-- No kernel of the constant is registered where the variable is not initialized, is not
initialized by each of its definitions, or is lost to the exports. -/
theorem resolve_missing_externalUse :
    FailsToLink {} [tentativeG] ∧ FailsToLink {} [tentativeG, initializedG] ∧
      FailsToLink { exports := some ["f"] } [initializedG] :=
  ⟨failsToLink_of_lacks (by decide +kernel), failsToLink_of_lacks (by decide +kernel),
    failsToLink_of_lacks (by decide +kernel)⟩

end Linker

end MathKernel
