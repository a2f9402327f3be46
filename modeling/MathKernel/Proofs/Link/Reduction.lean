import MathKernel.Proofs.Data.Closure
import MathKernel.Proofs.Kernel.Extraction
import MathKernel.Proofs.Link.Tables

/-!
# Reduction to exports

A batch of kernels can be reduced to those that a list of exports leads to before it is
registered. The reduction follows names inside the batch and does not tell kinds apart; the
linker follows calls through all its tables, built-in kernels and replaced ones included. Still
every name that the linker looks up for an exported entry point is a name that the reduction
keeps or a name that is not in the batch, so nothing changes for the entry point.

## Main definitions

* `BatchRefers` — a kernel of a batch refers to another one of it
* `Linker.IsKeptFrom` — a reduction keeps all kernels of a name

## Main results

* `mem_retainReachable` — which kernels are kept
* `Linker.retainReachable_links` — linking over the reduced batch is linking over the whole one
-/

namespace MathKernel

/-! ### What a reduction keeps -/

section Batch

variable {kernels : List Kernel} {exports : List String} {k : Kernel} {a b : String}

/-- A kernel of the batch refers to a name of the batch. -/
def BatchRefers (kernels : List Kernel) (a b : String) : Prop :=
  (∃ k ∈ kernels, k.name = a ∧ b ∈ k.references) ∧ b ∈ kernels.map Kernel.name

theorem any_name_iff : (kernels.any (·.name == a)) = true ↔ a ∈ kernels.map Kernel.name := by
  simp

/-- Where names are distinct, the last kernel of a name is the only one. -/
theorem find?_reverse_name (hnames : (kernels.map Kernel.name).Nodup) (hk : k ∈ kernels) :
    kernels.reverse.find? (·.name == k.name) = some k := by
  cases hfind : kernels.reverse.find? (·.name == k.name) with
  | none =>
    have := List.find?_eq_none.1 hfind k (List.mem_reverse.2 hk)
    simp at this
  | some k' =>
    have hk' : k' ∈ kernels := List.mem_reverse.1 (List.mem_of_find?_eq_some hfind)
    have hname : k'.name = k.name := by simpa using List.find?_some hfind
    rw [List.inj_on_of_nodup_map hnames hk' hk hname]

theorem mem_kernelSuccessors (hnames : (kernels.map Kernel.name).Nodup) :
    b ∈ kernelSuccessors kernels a ↔ BatchRefers kernels a b := by
  constructor
  · intro hb
    unfold kernelSuccessors at hb
    split at hb
    · next k hfind =>
      obtain ⟨hb, hbatch⟩ := List.mem_filter.1 hb
      have hk : k ∈ kernels := List.mem_reverse.1 (List.mem_of_find?_eq_some hfind)
      have hname : k.name = a := by simpa using List.find?_some hfind
      exact ⟨⟨k, hk, hname, hb⟩, any_name_iff.1 hbatch⟩
    · cases hb
  · rintro ⟨⟨k, hk, rfl, hb⟩, hbatch⟩
    simp only [kernelSuccessors, find?_reverse_name hnames hk]
    exact List.mem_filter.2 ⟨hb, any_name_iff.2 hbatch⟩

theorem kernelSuccessors_subset (kernels : List Kernel) (a : String) :
    kernelSuccessors kernels a ⊆ kernels.map Kernel.name := by
  intro b hb
  unfold kernelSuccessors at hb
  split at hb
  · exact any_name_iff.1 (List.mem_filter.1 hb).2
  · cases hb

/-- The names that a reduction finds are those that exported names of the batch lead to. -/
theorem mem_reachableNames (hnames : (kernels.map Kernel.name).Nodup) :
    b ∈ reachableNames exports kernels ↔
      ∃ e ∈ exports, e ∈ kernels.map Kernel.name ∧
        Relation.ReflTransGen (BatchRefers kernels) e b := by
  have hstep : (fun a b => b ∈ kernelSuccessors kernels a) = BatchRefers kernels := by
    funext a b
    exact propext (mem_kernelSuccessors hnames)
  have hstart : (exports.filter fun n => kernels.any (·.name == n)) ⊆ kernels.map Kernel.name :=
    fun e he => any_name_iff.1 (List.mem_filter.1 he).2
  have hclosure := mem_closure_iff (x := b) (fun a _ => kernelSuccessors_subset kernels a) hstart
  -- The closure takes as many steps as the batch has kernels, which is how many names there are.
  rw [List.length_map, hstep] at hclosure
  simp only [reachableNames, hclosure, List.mem_filter, any_name_iff, and_assoc]

/-- A kernel of a batch is kept if an exported name of the batch leads to its name. -/
theorem mem_retainReachable (hnames : (kernels.map Kernel.name).Nodup) (hk : k ∈ kernels) :
    k ∈ retainReachable exports kernels ↔
      ∃ e ∈ exports, e ∈ kernels.map Kernel.name ∧
        Relation.ReflTransGen (BatchRefers kernels) e k.name := by
  rw [← mem_reachableNames hnames]
  simp [retainReachable, hk]

end Batch

namespace Linker

variable {l l' : Linker} {kernels : List Kernel} {exports : List String} {entry name : String}
  {kind : KernelKind}

/-! ### Registering a reduced batch -/

/-- Every kernel of the batch that has the name is kept. -/
def IsKeptFrom (exports : List String) (kernels : List Kernel) (name : String) : Prop :=
  ∀ k ∈ kernels, k.name = name → k ∈ retainReachable exports kernels

theorem isKeptFrom_of_mem_exports (hnames : (kernels.map Kernel.name).Nodup)
    (hentry : entry ∈ exports) : IsKeptFrom exports kernels entry := by
  rintro k hk rfl
  exact (mem_retainReachable hnames hk).2 ⟨k.name, hentry, List.mem_map_of_mem hk, .refl⟩

/-- What a kept function refers to is kept. A built-in function refers to nothing; one of the
batch leads, inside the batch, to all that it refers to there. -/
theorem IsKeptFrom.of_mem_refs (hnames : (kernels.map Kernel.name).Nodup) {f : String}
    (hf : IsKeptFrom exports kernels f)
    (hname : name ∈ (withBuiltins.registerAll kernels).refs kind f) :
    IsKeptFrom exports kernels name := by
  rintro k hk rfl
  obtain ⟨g, hkernel, hreferences⟩ := exists_kernel?_of_mem_refs hname
  -- The function is the built-in one or, also where it takes its place, that of the batch.
  obtain ⟨hmem, -, rfl⟩ := kernel?_withBuiltins hkernel
  rcases List.mem_append.1 hmem with hmem | hmem
  · rw [builtinKernels_references _ hmem] at hreferences
    cases hreferences
  · obtain ⟨e, he, hbatch, hreach⟩ := (mem_retainReachable hnames hmem).1 (hf _ hmem rfl)
    refine (mem_retainReachable hnames hk).2 ⟨e, he, hbatch, hreach.tail ?_⟩
    exact ⟨⟨_, hmem, rfl, hreferences⟩, List.mem_map_of_mem hk⟩

theorem isKeptFrom_of_uses (hnames : (kernels.map Kernel.name).Nodup) (hentry : entry ∈ exports)
    (h : (withBuiltins.registerAll kernels).Uses entry kind name) :
    IsKeptFrom exports kernels name := by
  have hreached {f : String} (hf : (withBuiltins.registerAll kernels).Reaches entry f) :
      IsKeptFrom exports kernels f := by
    induction hf with
    | refl => exact isKeptFrom_of_mem_exports hnames hentry
    | tail _ hcall ih => exact ih.of_mem_refs hnames hcall
  rcases h with ⟨-, rfl⟩ | ⟨f, hf, hname⟩
  · exact hreached .refl
  · exact (hreached hf).of_mem_refs hnames hname

theorem agrees_retainReachable (hnames : (kernels.map Kernel.name).Nodup)
    (hentry : entry ∈ exports) :
    (withBuiltins.registerAll kernels).Agrees
      (withBuiltins.registerAll (retainReachable exports kernels)) entry := by
  refine .of_kernel? fun kind name h => ?_
  -- If the batch has no kernel of the name, the built-in one is found in both.
  refine kernel?_registerAll_filter (fun k hk hname => ?_) rfl
  exact (List.mem_filter.1 (isKeptFrom_of_uses hnames hentry h k hk hname)).2

/-- For an exported entry point, registering the reduced batch over the built-in kernels gives
what registering the whole batch gives: the resolution, the programs and the uniforms, or the
error. The reduction keeps the kernels that exported names of the batch lead to, in their
order. -/
theorem retainReachable_links (hnames : (kernels.map Kernel.name).Nodup)
    (hentry : entry ∈ exports) (target : Target) :
    let whole := withBuiltins.registerAll kernels
    let reduced := withBuiltins.registerAll (retainReachable exports kernels)
    (reduced.resolve entry = whole.resolve entry ∧
      reduced.program entry target = whole.program entry target ∧
      reduced.runtimeUniforms entry = whole.runtimeUniforms entry) ∧
    (retainReachable exports kernels).Sublist kernels ∧
    ∀ k ∈ kernels, k ∈ retainReachable exports kernels ↔
      ∃ e ∈ exports, e ∈ kernels.map Kernel.name ∧
        Relation.ReflTransGen (BatchRefers kernels) e k.name := by
  intro whole reduced
  have hagrees : whole.Agrees reduced entry := agrees_retainReachable hnames hentry
  exact ⟨⟨resolve_congr hagrees, hagrees.program_eq target, hagrees.runtimeUniforms_eq⟩,
    List.filter_sublist, fun k hk => mem_retainReachable hnames hk⟩

/-- A batch with a cycle of calls, a function that takes the place of a built-in one, and a
function that nothing refers to. -/
def overridingBatch : List Kernel :=
  let function (name : String) (calls constants : List String) : Kernel :=
    .function ⟨name, [], .float, ⟨.ofList calls, .ofList constants, .empty⟩, none, none⟩
  [function "spare" ["f"] [], function "f" ["abs", "g"] [], function "g" ["f"] ["P"],
    function "abs" ["sqrt"] [], .constant ⟨"P", .float, .scalar .nan, []⟩]

theorem retainReachable_links_overridingBatch :
    (overridingBatch.map Kernel.name).Nodup ∧
      (retainReachable ["f", "elsewhere"] overridingBatch).map Kernel.name =
        ["f", "g", "abs", "P"] ∧
      (withBuiltins.registerAll (retainReachable ["f", "elsewhere"] overridingBatch)).resolve "f" =
        (withBuiltins.registerAll overridingBatch).resolve "f" ∧
      (withBuiltins.registerAll overridingBatch).resolve "f" =
        .ok ⟨["f", "abs", "g", "sqrt"], ["P"], []⟩ := by
  have hnames : (overridingBatch.map Kernel.name).Nodup := by decide
  have hentry : "f" ∈ ["f", "elsewhere"] := by simp
  obtain ⟨⟨hresolve, -, -⟩, -⟩ := retainReachable_links hnames hentry .js
  have hnamed : "f" ∈ overridingBatch.map Kernel.name := by decide
  have hagrees := agrees_namedBuiltins hnamed
  refine ⟨hnames, by decide +kernel, hresolve, ?_⟩
  rw [resolve_congr hagrees]
  decide +kernel

end Linker

end MathKernel
