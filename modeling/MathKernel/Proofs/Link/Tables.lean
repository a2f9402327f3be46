import MathKernel.Proofs.Link.Walk
import MathKernel.Link.Program

/-!
# What is registered under a name

A batch of kernels is registered over the built-in ones. What stands under a kind and name then is
the last kernel that came in under both. A resolution looks up names in use only, and so does a
program, so kernels that no function in use names can be left out; of the built-in kernels, which
are many and refer to nothing, only those matter that the batch names.

## Main definitions

* `Linker.kernel?` — the kernel under a kind and name
* `Linker.namedBuiltins` — the built-in kernels that a batch names

## Main results

* `Linker.kernel?_withBuiltins` — a registered kernel is built in or one of the batch
* `Linker.Agrees.program_eq`, `Linker.Agrees.runtimeUniforms_eq` — programs are made of names in
  use
* `Linker.agrees_namedBuiltins` — built-in kernels that a batch does not name do not matter
-/

namespace MathKernel

theorem builtinKernels_kind :
    ∀ k ∈ builtinKernels, k.kind = if k.name = notANumber then .constant else .function := by
  decide +kernel

theorem builtinKernels_references : ∀ k ∈ builtinKernels, k.references = [] := by
  decide +kernel

namespace Linker

variable {l l' : Linker} {kernels : List Kernel} {entry name : String} {kind : KernelKind}
  {k : Kernel}

/-! ### Kernels by kind and name -/

/-- The kernel that is registered under a kind and name. -/
def kernel? (l : Linker) (kind : KernelKind) (name : String) : Option Kernel :=
  match kind with
  | .constant => (l.constant? name).map .constant
  | .var => (l.var? name).map .var
  | .function => (l.function? name).map .function

@[simp]
theorem kernel?_empty (kind : KernelKind) (name : String) : empty.kernel? kind name = none := by
  cases kind <;> rfl

theorem kernel?_register (l : Linker) (k : Kernel) (kind : KernelKind) (name : String) :
    (l.register k).kernel? kind name =
      if kind = k.kind ∧ name = k.name then some k else l.kernel? kind name := by
  cases k <;> cases kind <;>
    simp [register, kernel?, constant?, var?, function?, NameMap.get?_insert, Kernel.kind,
      Kernel.name] <;>
    split <;> simp_all

/-- What is registered was there before or is one of the kernels that came in. -/
theorem kernel?_registerAll (h : (l.registerAll kernels).kernel? kind name = some k) :
    (k ∈ kernels ∧ k.kind = kind ∧ k.name = name) ∨ l.kernel? kind name = some k := by
  induction kernels generalizing l with
  | nil => exact .inr h
  | cons first rest ih =>
    rcases ih h with ⟨hk, hkind⟩ | hold
    · exact .inl ⟨List.mem_cons_of_mem _ hk, hkind⟩
    · rw [kernel?_register] at hold
      split at hold
      · next hfirst =>
        cases hold
        exact .inl ⟨by simp, hfirst.1.symm, hfirst.2.symm⟩
      · exact .inr hold

/-- Without kernels before it, a batch is all that is registered. -/
theorem mem_of_kernel?_registerAll (h : (empty.registerAll kernels).kernel? kind name = some k) :
    k ∈ kernels ∧ k.kind = kind ∧ k.name = name := by
  rcases kernel?_registerAll h with h | h
  · exact h
  · rw [kernel?_empty] at h
    cases h

theorem registerAll_append (l : Linker) (kernels kernels' : List Kernel) :
    l.registerAll (kernels ++ kernels') = (l.registerAll kernels).registerAll kernels' :=
  List.foldl_append

theorem kernel?_withBuiltins (h : (withBuiltins.registerAll kernels).kernel? kind name = some k) :
    k ∈ builtinKernels ++ kernels ∧ k.kind = kind ∧ k.name = name := by
  rw [withBuiltins, ← registerAll_append] at h
  exact mem_of_kernel?_registerAll h

theorem has_iff_kernel? : l.has kind name ↔ ∃ k, l.kernel? kind name = some k := by
  cases kind <;>
    simp [has, kernel?, constant?, var?, function?, NameMap.contains, Option.isSome_iff_exists]

/-- Kernels of one name and two kinds are what keeps tables from being apart. -/
theorem tablesApart_withBuiltins (entry : String)
    (h : ∀ k ∈ builtinKernels ++ kernels, ∀ k' ∈ builtinKernels ++ kernels,
      k.name = k'.name → k.kind = k'.kind) :
    (withBuiltins.registerAll kernels).TablesApart entry := by
  intro name kind kind' _ _ hhas hhas'
  obtain ⟨k, hk⟩ := has_iff_kernel?.1 hhas
  obtain ⟨k', hk'⟩ := has_iff_kernel?.1 hhas'
  obtain ⟨hmem, rfl, hname⟩ := kernel?_withBuiltins hk
  obtain ⟨hmem', rfl, hname'⟩ := kernel?_withBuiltins hk'
  exact h k hmem k' hmem' (hname.trans hname'.symm)

/-- References are those of a registered function. -/
theorem exists_kernel?_of_mem_refs {f : String} (h : name ∈ l.refs kind f) :
    ∃ g, l.kernel? .function f = some (.function g) ∧ name ∈ (Kernel.function g).references := by
  unfold refs at h
  split at h
  · next g hg =>
    refine ⟨g, by simp [kernel?, hg], ?_⟩
    simp only [Kernel.references, Kernel.function?, Dependencies.names, List.mem_append]
    cases kind <;> simp only [Dependencies.ofKind] at h <;> simp [h]
  · cases h

/-! ### Leaving kernels out -/

theorem kernel?_registerAll_congr (h : l'.kernel? kind name = l.kernel? kind name) :
    (l'.registerAll kernels).kernel? kind name = (l.registerAll kernels).kernel? kind name := by
  induction kernels generalizing l l' with
  | nil => exact h
  | cons k rest ih =>
    refine ih ?_
    rw [kernel?_register, kernel?_register, h]

/-- Leaving kernels of other names out of a batch does not change what is found under a name. -/
theorem kernel?_registerAll_filter {keep : Kernel → Bool}
    (hkeep : ∀ k ∈ kernels, k.name = name → keep k)
    (h : l'.kernel? kind name = l.kernel? kind name) :
    (l'.registerAll (kernels.filter keep)).kernel? kind name =
      (l.registerAll kernels).kernel? kind name := by
  induction kernels generalizing l l' with
  | nil => exact h
  | cons k rest ih =>
    have hrest : ∀ k ∈ rest, k.name = name → keep k :=
      fun k hk => hkeep k (List.mem_cons_of_mem _ hk)
    by_cases hk : keep k
    · rw [List.filter_cons_of_pos hk]
      refine ih hrest ?_
      rw [kernel?_register, kernel?_register, h]
    · -- A kernel that is left out has another name.
      rw [List.filter_cons_of_neg hk]
      refine ih hrest ?_
      have hname : name ≠ k.name := fun hname => hk (hkeep k (List.mem_cons_self ..) hname.symm)
      rw [kernel?_register, if_neg fun hk => hname hk.2, h]

theorem Agrees.of_kernel?
    (h : ∀ kind name, l.Uses entry kind name → l'.kernel? kind name = l.kernel? kind name) :
    l.Agrees l' entry where
  function?_eq f hf := Option.map_injective (fun _ _ => Kernel.function.inj) (h .function f hf)
  constant?_eq c hc := Option.map_injective (fun _ _ => Kernel.constant.inj) (h .constant c hc)
  var?_eq v hv := Option.map_injective (fun _ _ => Kernel.var.inj) (h .var v hv)

/-- The built-in kernels that a batch names, as its own or as what its functions refer to. -/
def namedBuiltins (kernels : List Kernel) : List Kernel :=
  builtinKernels.filter fun b => kernels.any fun k => (k.name :: k.references).contains b.name

/-- Built-in kernels that a batch does not name do not matter to its functions. -/
theorem agrees_namedBuiltins (hentry : entry ∈ kernels.map Kernel.name) :
    (empty.registerAll (namedBuiltins kernels ++ kernels)).Agrees
      (withBuiltins.registerAll kernels) entry := by
  refine .of_kernel? fun kind name huses => ?_
  rw [registerAll_append]
  refine kernel?_registerAll_congr (kernel?_registerAll_filter (fun b _ hb => ?_) rfl).symm
  -- A name in use is the entry point or stands in a function; a built-in one refers to nothing.
  have hnamed : ∃ k ∈ kernels, name ∈ k.name :: k.references := by
    rcases huses with ⟨-, rfl⟩ | ⟨f, -, hname⟩
    · obtain ⟨k, hk, rfl⟩ := List.mem_map.1 hentry
      exact ⟨k, hk, List.mem_cons_self⟩
    · obtain ⟨g, hg, hname⟩ := exists_kernel?_of_mem_refs hname
      rcases List.mem_append.1 (mem_of_kernel?_registerAll hg).1 with hmem | hmem
      · rw [builtinKernels_references _ (List.mem_of_mem_filter hmem)] at hname
        cases hname
      · exact ⟨_, hmem, List.mem_cons_of_mem _ hname⟩
  obtain ⟨k, hk, hname⟩ := hnamed
  exact List.any_eq_true.2 ⟨k, hk, List.contains_iff_mem.2 (hb ▸ hname)⟩

/-- No kernel of the batch has the name of a built-in one or refers to one. -/
def AvoidsBuiltins (kernels : List Kernel) : Prop :=
  ∀ k ∈ kernels, ∀ name ∈ k.name :: k.references, name ∉ builtinKernels.map Kernel.name

instance (kernels : List Kernel) : Decidable (AvoidsBuiltins kernels) :=
  inferInstanceAs (Decidable (∀ k ∈ kernels, ∀ name ∈ k.name :: k.references,
    name ∉ builtinKernels.map Kernel.name))

theorem AvoidsBuiltins.agrees (h : AvoidsBuiltins kernels)
    (hentry : entry ∈ kernels.map Kernel.name) :
    (empty.registerAll kernels).Agrees (withBuiltins.registerAll kernels) entry := by
  have hnone : namedBuiltins kernels = [] := by
    refine List.filter_eq_nil_iff.2 fun b hb hnamed => ?_
    obtain ⟨k, hk, hname⟩ := List.any_eq_true.1 hnamed
    exact h k hk _ (List.contains_iff_mem.1 hname) (List.mem_map_of_mem hb)
  have hagrees := agrees_namedBuiltins hentry
  rwa [hnone, List.nil_append] at hagrees

/-! ### Programs are made of names in use -/

theorem Agrees.resolvedValues_eq (h : l.Agrees l' entry) {r : Resolution}
    (hr : l.resolve entry = .ok r) : l'.resolvedValues r = l.resolvedValues r := by
  obtain ⟨-, hconstants, hvars⟩ := resolve_uses hr
  rw [resolvedValues, resolvedValues,
    List.filterMap_congr fun c hc => h.constant?_eq c (hconstants c hc),
    List.filterMap_congr fun v hv => h.var?_eq v (hvars v hv)]

theorem Agrees.sections_eq (h : l.Agrees l' entry) {r : Resolution}
    (hr : l.resolve entry = .ok r) (target : Target) :
    l'.sections r target = l.sections r target := by
  obtain ⟨hfunctions, hconstants, hvars⟩ := resolve_uses hr
  have hcodes : l'.codes r target.family = l.codes r target.family := by
    rw [codes, codes, List.filterMap_congr fun f hf => h.function?_eq f (hfunctions f hf)]
  have hdeclarations : l'.declarations r target = l.declarations r target := by
    rw [declarations, declarations,
      List.filterMap_congr fun c hc => h.constant?_eq c (hconstants c hc),
      List.filterMap_congr fun v hv => h.var?_eq v (hvars v hv)]
  simp only [sections, hcodes, hdeclarations]

/-- Linkers that agree on the names in use make one program of an entry point. -/
theorem Agrees.program_eq (h : l.Agrees l' entry) (target : Target) :
    l'.program entry target = l.program entry target := by
  have hentry : l'.function? entry = l.function? entry := h.function?_eq entry (.inl ⟨rfl, rfl⟩)
  rw [program, program, resolve_congr h, hentry]
  cases hr : l.resolve entry with
  | error e => rfl
  | ok r => simp only [bind, Except.bind, h.sections_eq hr]

theorem Agrees.runtimeUniforms_eq (h : l.Agrees l' entry) :
    l'.runtimeUniforms entry = l.runtimeUniforms entry := by
  rw [runtimeUniforms, runtimeUniforms, resolve_congr h]
  cases hr : l.resolve entry with
  | error e => rfl
  | ok r => simp only [bind, Except.bind, h.resolvedValues_eq hr]

end Linker

end MathKernel
