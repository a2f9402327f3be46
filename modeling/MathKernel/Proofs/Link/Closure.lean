import MathKernel.Link.Resolution
import MathKernel.Proofs.Data.Closure
import MathKernel.Proofs.Kernel.Dependencies

/-!
# Exactness of resolution

The functions that an entry point reaches through calls form a graph that may have cycles. A
resolution walks it with a queue; as long as no name is in use under two kinds, the walk lists
exactly what is reachable, nearest functions first, and fails exactly when something reachable
is not registered.

The walk keeps one invariant, `Progress.Sound`: visited and waiting functions together are what
the visited ones call, first mentions only. Everything about the result is read off it.

## Main definitions

* `Linker.Reaches`, `Linker.ReachesIn` — a function is reached through calls (of a given number)
* `Linker.KindsApart` — no reachable name is in use under two kinds
* `Linker.IsClosed` — every reachable name is registered
* `Linker.IsClosure` — a resolution lists what is reachable, breadth first
* `Linker.Explains` — an error names what is missing and who needs it

## Main results

* `Linker.resolve_exact` — success, result and error of a resolution
-/

namespace MathKernel

/-! ### The call graph -/

namespace Linker

variable {l : Linker} {entry f g : String} {k : FunctionKernel}

/-- Whether a name is registered under a kind. -/
def has (l : Linker) : KernelKind → String → Bool
  | .constant => l.constants.contains
  | .var => l.vars.contains
  | .function => l.functions.contains

/-- The names of one kind that a registered function refers to. -/
def refs (l : Linker) (kind : KernelKind) (f : String) : List String :=
  match l.function? f with
  | some k => k.deps.ofKind kind
  | none => []

/-- One function calls another. -/
def Calls (l : Linker) (f g : String) : Prop := g ∈ l.refs .function f

/-- A function is reached from another through calls. -/
def Reaches (l : Linker) : String → String → Prop := Relation.ReflTransGen l.Calls

/-- A function is reached from another through the given number of calls. -/
inductive ReachesIn (l : Linker) (f : String) : Nat → String → Prop where
  | refl : ReachesIn l f 0 f
  | tail {n : Nat} {g h : String} : ReachesIn l f n g → l.Calls g h → ReachesIn l f (n + 1) h

/-- What an entry point uses under a kind: itself, as a function, and what the functions that it
reaches refer to. -/
def Uses (l : Linker) (entry : String) (kind : KernelKind) (name : String) : Prop :=
  (kind = .function ∧ name = entry) ∨ ∃ f, l.Reaches entry f ∧ name ∈ l.refs kind f

/-- No name is in use under two kinds. -/
def KindsApart (l : Linker) (entry : String) : Prop :=
  ∀ name kind kind', l.Uses entry kind name → l.Uses entry kind' name → kind = kind'

/-- No name is in use and registered under two kinds. -/
def TablesApart (l : Linker) (entry : String) : Prop :=
  ∀ name kind kind', l.Uses entry kind name → l.Uses entry kind' name →
    l.has kind name → l.has kind' name → kind = kind'

/-- A reachable function refers to a name that is not registered under its kind. -/
def Lacks (l : Linker) (entry : String) (kind : KernelKind) (name requiredBy : String) : Prop :=
  l.Reaches entry requiredBy ∧ name ∈ l.refs kind requiredBy ∧ l.has kind name = false

/-- The entry point and all that reachable functions refer to are registered. -/
def IsClosed (l : Linker) (entry : String) : Prop :=
  l.has .function entry ∧
    ∀ f, l.Reaches entry f → ∀ kind, ∀ name ∈ l.refs kind f, l.has kind name

/-- A list starts with the entry point and goes on by distance from it: no function stands before
one that takes fewer calls to reach. -/
def BreadthFirst (l : Linker) (entry : String) (order : List String) : Prop :=
  order.head? = some entry ∧
    order.Pairwise fun f g => ∀ n, l.ReachesIn entry n g → ∃ m ≤ n, l.ReachesIn entry m f

/-- A resolution lists exactly what is reachable, each name once. -/
structure IsClosure (l : Linker) (entry : String) (r : Resolution) : Prop where
  nodup_functions : r.functions.Nodup
  mem_functions : ∀ f, f ∈ r.functions ↔ l.Reaches entry f
  breadthFirst : l.BreadthFirst entry r.functions
  nodup_constants : r.constants.Nodup
  mem_constants : ∀ c, c ∈ r.constants ↔ ∃ f, l.Reaches entry f ∧ c ∈ l.refs .constant f
  nodup_vars : r.vars.Nodup
  mem_vars : ∀ v, v ∈ r.vars ↔ ∃ f, l.Reaches entry f ∧ v ∈ l.refs .var f

/-- What an error of a resolution asserts. -/
def Explains (l : Linker) (entry : String) : LinkError → Prop
  | .unknownEntry name => name = entry ∧ l.has .function entry = false
  | .missingFunction name requiredBy =>
    l.has .function entry ∧ l.Lacks entry .function name requiredBy
  | .missingConstant name requiredBy =>
    l.has .function entry ∧ l.Lacks entry .constant name requiredBy
  | .missingVariable name requiredBy =>
    l.has .function entry ∧ l.Lacks entry .var name requiredBy
  | .missingCode .. => False

theorem KindsApart.tablesApart (h : l.KindsApart entry) : l.TablesApart entry :=
  fun name kind kind' huse huse' _ _ => h name kind kind' huse huse'

theorem refs_eq (h : l.function? f = some k) (kind : KernelKind) :
    l.refs kind f = k.deps.ofKind kind := by
  simp [refs, h]

theorem nodup_refs (l : Linker) (kind : KernelKind) (f : String) : (l.refs kind f).Nodup := by
  unfold refs
  split
  · exact Dependencies.nodup_ofKind _ kind
  · exact .nil

theorem function?_of_has (h : l.has .function f) : ∃ k, l.function? f = some k := by
  simpa [has, NameMap.contains, function?, Option.isSome_iff_exists] using h

/-- There are no more distinct registered functions than the linker holds. -/
theorem length_le_size {names : List String} (hnodup : names.Nodup)
    (hreg : ∀ f ∈ names, l.has .function f) : names.length ≤ l.functions.size := by
  have hsub : names ⊆ l.functions.keys := fun f hf =>
    NameMap.contains_iff_mem_keys.1 (hreg f hf)
  have := (List.subperm_of_subset hnodup hsub).length_le
  simpa [NameMap.keys, NameMap.size] using this

theorem Reaches.uses (h : l.Reaches entry f) {kind : KernelKind} {name : String}
    (hname : name ∈ l.refs kind f) : l.Uses entry kind name :=
  .inr ⟨f, h, hname⟩

/-- A closed list of names holds all that its members reach. -/
theorem Reaches.mem_of_closed {names : List String} (h : l.Reaches f g) (hf : f ∈ names)
    (closed : ∀ x ∈ names, ∀ y ∈ l.refs .function x, y ∈ names) : g ∈ names := by
  induction h with
  | refl => exact hf
  | tail _ hcall ih => exact closed _ ih _ hcall

/-- A function reached in some number of calls is reached. -/
theorem ReachesIn.reaches {n : Nat} (h : l.ReachesIn f n g) : l.Reaches f g := by
  induction h with
  | refl => exact .refl
  | tail _ hcall ih => exact ih.tail hcall

/-! ### Order by distance -/

section Order

variable {order : List String}

theorem mem_order_iff (h : order = (entry :: order.flatMap (l.refs .function)).eraseDups)
    (x : String) : x ∈ order ↔ x = entry ∨ ∃ y ∈ order, x ∈ l.refs .function y := by
  conv_lhs => rw [h]
  simp [List.mem_eraseDups, List.mem_flatMap]

theorem reaches_mem_order (h : order = (entry :: order.flatMap (l.refs .function)).eraseDups)
    (hg : l.Reaches entry g) : g ∈ order := by
  have hentry : entry ∈ order := (mem_order_iff h entry).2 (.inl rfl)
  exact hg.mem_of_closed hentry fun x hx y hy => (mem_order_iff h y).2 (.inr ⟨x, hx, hy⟩)

/-- Whoever calls a function, someone at or before the caller calls each earlier function. -/
theorem caller_of_earlier (h : order = (entry :: order.flatMap (l.refs .function)).eraseDups)
    {caller : String} (hfg : [f, g].Sublist order) (hcaller : caller ∈ order)
    (hg : g ∈ l.refs .function caller) :
    f = entry ∨ f ∈ l.refs .function caller ∨
      ∃ p, [p, caller].Sublist order ∧ f ∈ l.refs .function p := by
  obtain ⟨before, after, hsplit⟩ := List.append_of_mem hcaller
  have hparts : entry :: order.flatMap (l.refs .function) =
      (entry :: (before ++ [caller]).flatMap (l.refs .function)) ++
        after.flatMap (l.refs .function) := by
    rw [hsplit]
    simp
  rw [h, hparts] at hfg
  have hf := mem_of_sublist_eraseDups hfg (by simp [hg])
  simp only [List.flatMap_append, List.flatMap_singleton, List.mem_cons, List.mem_append,
    List.mem_flatMap] at hf
  rcases hf with hf | ⟨p, hp, hf⟩ | hf
  · exact .inl hf
  · refine .inr (.inr ⟨p, ?_, hf⟩)
    rw [hsplit]
    exact (List.singleton_sublist.2 hp).append (by simp)
  · exact .inr (.inl hf)

/-- A list of the first mentions of an entry point and of what the list's own functions call goes
by distance. The induction is on the length of a path to the later function: its last caller has
someone at or before it who calls the earlier one. -/
theorem breadthFirst_of_order
    (h : order = (entry :: order.flatMap (l.refs .function)).eraseDups) :
    l.BreadthFirst entry order := by
  constructor
  · rw [h, List.eraseDups_cons]
    rfl
  · rw [List.pairwise_iff_forall_sublist]
    intro f g hfg n hn
    induction n generalizing f g with
    | zero =>
      cases hn
      have hnodup : order.Nodup := h ▸ nodup_eraseDups _
      rw [h, List.eraseDups_cons] at hfg hnodup
      rcases List.cons_sublist_cons'.1 hfg with hrest | ⟨-, hrest⟩
      · exact absurd (hrest.subset (by simp)) (List.nodup_cons.1 hnodup).1
      · exact absurd (hrest.subset (by simp)) (List.nodup_cons.1 hnodup).1
    | succ n ih =>
      obtain _ | ⟨hcaller, hg⟩ := hn
      rcases caller_of_earlier h hfg (reaches_mem_order h hcaller.reaches) hg with
        rfl | hf | ⟨p, hp, hf⟩
      · exact ⟨0, Nat.zero_le _, .refl⟩
      · exact ⟨n + 1, Nat.le_refl _, hcaller.tail hf⟩
      · obtain ⟨m, hm, hreach⟩ := ih hp hcaller
        exact ⟨m + 1, by omega, hreach.tail hf⟩

end Order

/-! ### The walk -/

namespace Progress

/-- The names met under a kind; functions include those that wait. -/
def listed (p : Progress) : KernelKind → List String
  | .constant => p.found.constants
  | .var => p.found.vars
  | .function => p.found.functions ++ p.queue

/-- What is met before any function is visited. -/
def start (entry : String) : KernelKind → List String
  | .constant | .var => []
  | .function => [entry]

/-- The invariant of the walk. -/
structure Sound (l : Linker) (entry : String) (p : Progress) : Prop where
  listed_eq : ∀ kind, p.listed kind =
    (start entry kind ++ p.found.functions.flatMap (l.refs kind)).eraseDups
  mem_seen : ∀ x, x ∈ p.seen ↔ ∃ kind, x ∈ p.listed kind
  reaches : ∀ f ∈ p.listed .function, l.Reaches entry f
  registered : ∀ kind, ∀ x ∈ p.listed kind, l.has kind x
  checked : ∀ f ∈ p.found.functions, ∀ kind, ∀ name ∈ l.refs kind f, l.has kind name

variable {p : Progress} {name : String} {rest : List String}

theorem sound_start (h : l.has .function entry) :
    Sound l entry { seen := [entry], queue := [entry], found := .empty } where
  listed_eq kind := by cases kind <;> simp [listed, start, Resolution.empty, List.eraseDups_cons]
  mem_seen x := by
    constructor
    · intro hx
      exact ⟨.function, by simpa [listed, Resolution.empty] using hx⟩
    · rintro ⟨kind, hx⟩
      cases kind <;> simp_all [listed, Resolution.empty]
  reaches f hf := by
    obtain rfl : f = entry := by simpa [listed, Resolution.empty] using hf
    exact .refl
  registered kind x hx := by
    cases kind <;> simp_all [listed, Resolution.empty]
  checked f hf := by simp [Resolution.empty] at hf

theorem Sound.mem_listed (hs : p.Sound l entry) (kind : KernelKind) (x : String) :
    x ∈ p.listed kind ↔
      x ∈ start entry kind ∨ ∃ f ∈ p.found.functions, x ∈ l.refs kind f := by
  simp [hs.listed_eq kind, List.mem_eraseDups, List.mem_flatMap]

theorem Sound.nodup_listed (hs : p.Sound l entry) (kind : KernelKind) :
    (p.listed kind).Nodup :=
  hs.listed_eq kind ▸ nodup_eraseDups _

theorem Sound.uses (hs : p.Sound l entry) {kind : KernelKind} {x : String}
    (hx : x ∈ p.listed kind) : l.Uses entry kind x := by
  rcases (hs.mem_listed kind x).1 hx with hx | ⟨f, hf, hx⟩
  · cases kind <;> simp_all [start, Uses]
  · exact (hs.reaches f (List.mem_append_left _ hf)).uses hx

/-- A registered name that a reachable function refers to was met before only under its own
kind. -/
theorem Sound.mem_seen_iff (hs : p.Sound l entry) (apart : l.TablesApart entry)
    {kind : KernelKind} {x : String} (hx : l.Uses entry kind x) (hreg : l.has kind x) :
    x ∈ p.seen ↔ x ∈ p.listed kind := by
  rw [hs.mem_seen]
  constructor
  · rintro ⟨kind', hx'⟩
    rwa [apart x kind kind' hx (hs.uses hx') hreg (hs.registered kind' x hx')]
  · exact fun hx => ⟨kind, hx⟩

/-- What a visit adds under each kind: the names of that kind that were not met under it. -/
theorem Sound.listed_visit (hs : p.Sound l entry) (apart : l.TablesApart entry)
    (hq : p.queue = name :: rest) (hk : l.function? name = some k)
    (hdeps : ∀ kind, ∀ x ∈ l.refs kind name, l.has kind x) (kind : KernelKind) :
    (visit { p with queue := rest } name k).listed kind =
      p.listed kind ++ (l.refs kind name).filter (!(p.listed kind).contains ·) := by
  have hreach : l.Reaches entry name := hs.reaches name (by simp [listed, hq])
  have hseen (kind : KernelKind) {x : String} (hx : x ∈ k.deps.ofKind kind) :
      x ∈ p.seen ↔ x ∈ p.listed kind := by
    rw [← refs_eq hk] at hx
    exact hs.mem_seen_iff apart (hreach.uses hx) (hdeps kind x hx)
  have hother (kind kind' : KernelKind) {x : String} (hne : kind ≠ kind')
      (hx : x ∈ k.deps.ofKind kind) : x ∉ k.deps.ofKind kind' := by
    intro hx'
    rw [← refs_eq hk] at hx hx'
    exact hne (apart x kind kind' (hreach.uses hx) (hreach.uses hx') (hdeps kind x hx)
      (hdeps kind' x hx'))
  rw [refs_eq hk]
  -- Names of another kind among those just met do not matter to the tests that follow.
  cases kind with
  | function =>
    have hnew : k.deps.functions.toList.filter (!p.seen.contains ·) =
        (k.deps.ofKind .function).filter (!(p.listed .function).contains ·) := by
      refine List.filter_congr fun x hx => ?_
      simp [hseen .function hx]
    simp only [visit, listed, hnew, hq, List.append_assoc, List.cons_append, List.nil_append]
  | constant =>
    simp only [visit, listed]
    congr 1
    refine List.filter_congr fun x hx => ?_
    have hfunction : x ∉ k.deps.functions.toList :=
      hother .constant .function (by simp) hx
    simpa [hfunction, listed] using hseen .constant hx
  | var =>
    simp only [visit, listed]
    congr 1
    refine List.filter_congr fun x hx => ?_
    have hfunction : x ∉ k.deps.functions.toList :=
      hother .var .function (by simp) hx
    have hconstant : x ∉ k.deps.constants.toList :=
      hother .var .constant (by simp) hx
    simpa [hfunction, hconstant, listed] using hseen .var hx

theorem mem_seen_visit {x : String} :
    x ∈ (visit p name k).seen ↔ x ∈ p.seen ∨ ∃ kind, x ∈ k.deps.ofKind kind := by
  simp only [visit, List.mem_append, List.mem_filter]
  constructor
  · rintro (((h | h) | h) | h)
    · exact .inl h
    · exact .inr ⟨.function, h.1⟩
    · exact .inr ⟨.constant, h.1⟩
    · exact .inr ⟨.var, h.1⟩
  · rintro (h | ⟨kind, h⟩)
    · exact .inl (.inl (.inl h))
    · cases kind <;> simp only [Dependencies.ofKind] at h <;> simp [h] <;> tauto

/-- A visit to a function whose references are registered keeps the invariant. -/
theorem Sound.visit (hs : p.Sound l entry) (apart : l.TablesApart entry)
    (hq : p.queue = name :: rest) (hk : l.function? name = some k)
    (hdeps : ∀ kind, ∀ x ∈ l.refs kind name, l.has kind x) :
    (Progress.visit { p with queue := rest } name k).Sound l entry := by
  have hreach : l.Reaches entry name := hs.reaches name (by simp [listed, hq])
  have hmem {kind : KernelKind} {x : String} :
      x ∈ (Progress.visit { p with queue := rest } name k).listed kind ↔
        x ∈ p.listed kind ∨ x ∈ l.refs kind name := by
    rw [hs.listed_visit apart hq hk hdeps]
    simp only [List.mem_append, List.mem_filter]
    by_cases hx : x ∈ p.listed kind <;> simp [hx]
  -- A new list is what was listed before and the references that are not in it, in their order.
  refine ⟨fun kind => ?_, fun x => ?_, fun f hf => ?_, fun kind x hx => ?_, fun f hf => ?_⟩
  · calc
      _ = p.listed kind ++ (l.refs kind name).filter (!(p.listed kind).contains ·) :=
        hs.listed_visit apart hq hk hdeps kind
      _ = (start entry kind ++ p.found.functions.flatMap (l.refs kind) ++
            l.refs kind name).eraseDups := by
        rw [eraseDups_append_of_nodup (l.nodup_refs kind name), hs.listed_eq kind]
      _ = _ := by simp [Progress.visit]
  · rw [mem_seen_visit, hs.mem_seen]
    simp only [hmem, exists_or, refs_eq hk]
  · rcases hmem.1 hf with hf | hf
    · exact hs.reaches f hf
    · exact hreach.tail hf
  · rcases hmem.1 hx with hx | hx
    · exact hs.registered kind x hx
    · exact hdeps kind x hx
  · rcases List.mem_append.1 hf with hf | hf
    · exact hs.checked f hf
    · rw [List.mem_singleton.1 hf]
      exact hdeps

/-- No more functions are met than there are registered. -/
theorem Sound.length_le (hs : p.Sound l entry) :
    (p.listed .function).length ≤ l.functions.size :=
  length_le_size (hs.nodup_listed .function) (hs.registered .function)

end Progress

theorem checkDeps_ok (hk : l.function? f = some k) (h : l.checkDeps k f = .ok ())
    (kind : KernelKind) : ∀ x ∈ l.refs kind f, l.has kind x := by
  intro x hx
  rw [refs_eq hk] at hx
  unfold checkDeps at h
  split at h
  · cases h
  · next hfunctions =>
    split at h
    · cases h
    · next hconstants =>
      split at h
      · cases h
      · next hvars =>
        cases kind with
        | function => simpa [has] using List.find?_eq_none.1 hfunctions x hx
        | constant => simpa [has] using List.find?_eq_none.1 hconstants x hx
        | var => simpa [has] using List.find?_eq_none.1 hvars x hx

theorem checkDeps_error {e : LinkError} (hk : l.function? f = some k)
    (hentry : l.has .function entry) (hreach : l.Reaches entry f)
    (h : l.checkDeps k f = .error e) : l.Explains entry e := by
  have hlacks (kind : KernelKind) {x : String}
      (hx : (k.deps.ofKind kind).find? (!l.has kind ·) = some x) : l.Lacks entry kind x f := by
    refine ⟨hreach, refs_eq hk kind ▸ List.mem_of_find?_eq_some hx, ?_⟩
    simpa using List.find?_some hx
  unfold checkDeps at h
  split at h
  · next hx =>
    cases h
    exact ⟨hentry, hlacks .function hx⟩
  · split at h
    · next hx =>
      cases h
      exact ⟨hentry, hlacks .constant hx⟩
    · split at h
      · next hx =>
        cases h
        exact ⟨hentry, hlacks .var hx⟩
      · cases h

/-- From any state of the walk with enough steps left, it ends with an empty queue or with an
error that explains itself. -/
theorem resolveSteps_spec (apart : l.TablesApart entry) (hentry : l.has .function entry) (n : Nat)
    (p : Progress) (hs : p.Sound l entry)
    (hn : l.functions.size ≤ n + p.found.functions.length) :
    match l.resolveSteps n p with
    | .ok r => ∃ q : Progress, q.Sound l entry ∧ q.queue = [] ∧ q.found = r
    | .error e => l.Explains entry e := by
  induction n generalizing p with
  | zero =>
    -- The steps are used up: every function has been found, so none is waiting.
    have hlen := hs.length_le
    simp only [Progress.listed, List.length_append] at hlen
    have hq : p.queue = [] := List.length_eq_zero_iff.1 (by omega)
    exact ⟨p, hs, hq, rfl⟩
  | succ n ih =>
    cases hq : p.queue with
    | nil =>
      simp only [resolveSteps, hq]
      exact ⟨p, hs, hq, rfl⟩
    | cons name rest =>
      have hname : name ∈ p.listed .function := by simp [Progress.listed, hq]
      obtain ⟨k, hk⟩ := function?_of_has (hs.registered .function name hname)
      simp only [resolveSteps, hq, hk]
      cases hcheck : l.checkDeps k name with
      | error e => exact checkDeps_error hk hentry (hs.reaches name hname) hcheck
      | ok _ =>
        refine ih _ (hs.visit apart hq hk (checkDeps_ok hk hcheck)) ?_
        simp only [Progress.visit, List.length_append, List.length_singleton]
        omega

/-- Nothing waits at the end of the walk, so what is visited is what is reachable. -/
theorem Progress.Sound.isClosure {p : Progress} (hs : p.Sound l entry) (hq : p.queue = []) :
    l.IsClosure entry p.found ∧ l.IsClosed entry := by
  have horder : p.found.functions =
      (entry :: p.found.functions.flatMap (l.refs .function)).eraseDups := by
    simpa [listed, start, hq] using hs.listed_eq .function
  have hmem (f : String) : f ∈ p.found.functions ↔ l.Reaches entry f := by
    refine ⟨fun hf => hs.reaches f ?_, reaches_mem_order horder⟩
    exact List.mem_append_left _ hf
  refine ⟨⟨horder ▸ nodup_eraseDups _, hmem, breadthFirst_of_order horder,
    hs.nodup_listed .constant, fun c => ?_, hs.nodup_listed .var, fun v => ?_⟩, ?_, ?_⟩
  · simpa [start, hmem, listed] using hs.mem_listed .constant c
  · simpa [start, hmem, listed] using hs.mem_listed .var v
  · exact hs.registered .function entry (List.mem_append_left _ ((hmem entry).2 .refl))
  · exact fun f hf => hs.checked f ((hmem f).2 hf)

theorem Explains.not_isClosed {e : LinkError} (h : l.Explains entry e) : ¬l.IsClosed entry := by
  rintro ⟨hentry, hclosed⟩
  cases e with
  | unknownEntry name => simp_all [Explains]
  | missingCode name target => exact h
  | missingFunction name requiredBy | missingConstant name requiredBy
  | missingVariable name requiredBy =>
    obtain ⟨-, hreach, hname, hmissing⟩ := h
    have := hclosed _ hreach _ _ hname
    simp_all

/-- What a resolution of an entry point gives, result or error, is right. -/
theorem resolve_spec (apart : l.TablesApart entry) :
    match l.resolve entry with
    | .ok r => l.IsClosure entry r ∧ l.IsClosed entry
    | .error e => l.Explains entry e := by
  unfold resolve
  by_cases hentry : l.functions.contains entry
  · rw [if_pos hentry]
    have hrun := resolveSteps_spec apart hentry l.functions.size _ (Progress.sound_start hentry)
      (by omega)
    split at hrun
    · obtain ⟨q, hs, hq, rfl⟩ := hrun
      exact hs.isClosure hq
    · exact hrun
  · rw [if_neg hentry]
    exact ⟨rfl, by simpa [has] using hentry⟩

/-- As long as no name is in use under two kinds, resolution succeeds exactly on closed entry
points, lists exactly what is reachable, breadth first, and otherwise blames a name that is
missing and a reachable function that refers to it. -/
theorem resolve_exact (apart : l.KindsApart entry) :
    ((∃ r, l.resolve entry = .ok r) ↔ l.IsClosed entry) ∧
      (∀ r, l.resolve entry = .ok r → l.IsClosure entry r) ∧
      ∀ e, l.resolve entry = .error e → l.Explains entry e := by
  have hspec := resolve_spec apart.tablesApart
  cases hr : l.resolve entry with
  | ok r =>
    rw [hr] at hspec
    refine ⟨⟨fun _ => hspec.2, fun _ => ⟨r, rfl⟩⟩, ?_, ?_⟩
    · rintro r' ⟨⟩
      exact hspec.1
    · rintro e ⟨⟩
  | error e =>
    rw [hr] at hspec
    refine ⟨⟨?_, fun hclosed => absurd hclosed hspec.not_isClosed⟩, ?_, ?_⟩
    · rintro ⟨r, ⟨⟩⟩
    · rintro r ⟨⟩
    · rintro e' ⟨⟩
      exact hspec

/-- Two functions that call each other; one refers to a constant, the other to a variable. -/
def cyclicPair : Linker :=
  let deps (calls constants vars : List String) : Dependencies :=
    ⟨.ofList calls, .ofList constants, .ofList vars⟩
  let function (name : String) (deps : Dependencies) : Kernel :=
    .function ⟨name, [], .float, deps, none, none⟩
  let value (name : String) : ValueKernel := ⟨name, .float, .scalar .nan, []⟩
  empty.registerAll
    [function "f" (deps ["g"] ["P"] []), function "g" (deps ["f"] ["P"] ["s"]),
      .constant (value "P"), .var (value "s")]

/-- The names that the pair uses, with their kinds. -/
theorem uses_cyclicPair {kind : KernelKind} {name : String} (h : cyclicPair.Uses "f" kind name) :
    (name, kind) ∈ [("f", .function), ("g", .function), ("P", .constant), ("s", .var)] := by
  have hreach {f : String} (h : cyclicPair.Reaches "f" f) : f ∈ ["f", "g"] :=
    h.mem_of_closed (by simp) (by decide +kernel)
  rcases h with ⟨rfl, rfl⟩ | ⟨f, hf, hname⟩
  · simp
  · have hall : ∀ f ∈ ["f", "g"], ∀ kind ∈ [KernelKind.constant, .var, .function],
        ∀ name ∈ cyclicPair.refs kind f, (name, kind) ∈
          [("f", KernelKind.function), ("g", .function), ("P", .constant), ("s", .var)] := by
      decide +kernel
    exact hall f (hreach hf) kind (by cases kind <;> simp) name hname

theorem kindsApart_cyclicPair : cyclicPair.KindsApart "f" := by
  intro name kind kind' h h'
  have := uses_cyclicPair h
  have := uses_cyclicPair h'
  grind

theorem resolve_exact_cyclicPair :
    cyclicPair.KindsApart "f" ∧
      cyclicPair.resolve "f" = .ok ⟨["f", "g"], ["P"], ["s"]⟩ ∧
      cyclicPair.IsClosure "f" ⟨["f", "g"], ["P"], ["s"]⟩ ∧ cyclicPair.IsClosed "f" := by
  have hresolve : cyclicPair.resolve "f" = .ok ⟨["f", "g"], ["P"], ["s"]⟩ := by decide +kernel
  obtain ⟨hclosed, hclosure, -⟩ := resolve_exact kindsApart_cyclicPair
  exact ⟨kindsApart_cyclicPair, hresolve, hclosure _ hresolve, hclosed.1 ⟨_, hresolve⟩⟩

end Linker

end MathKernel
