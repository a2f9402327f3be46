import Mathlib.Data.List.Sort
import Mathlib.Logic.Equiv.Basic
import MathKernel.Proofs.Link.Walk

/-!
# New names for constants and variables

Constants, variables and functions stand in tables of their own. If constants and variables get
new names, in their tables and wherever functions refer to them, a resolution does the same under
the new names. There are two limits. The names that one function refers to are visited in their
order, so where the new names stand in another order, the lists and the choice among several
missing names follow that. And a walk remembers the names it met without their kinds, so the new
names must be in use under two kinds exactly where the old ones were.

The two walks are compared step by step: the same functions wait, and a name was met in the one
if its new name was met in the other.

## Main definitions

* `ValueNames`, `Linker.renamed` — new names, and a linker with them
* `ValueNames.KeepsApart`, `ValueNames.KeepsOrder` — what new names may keep of the old ones
* `Linker.Mirrors` — a result under new names is that under the old ones

## Main results

* `Linker.resolve_renamed` — resolution under new names
* `Linker.resolve_renamed_sharedName` — a function is left out because a constant has its name
-/

namespace MathKernel

/-! ### Sets and maps under new names -/

/-- Lists with the same names, and in the same order under a condition. -/
def SameNames (ordered : Prop) (names names' : List String) : Prop :=
  names'.Perm names ∧ (ordered → names' = names)

namespace SameNames

variable {ordered : Prop} {names names' more more' : List String} {ρ : String → String}

theorem refl (ordered : Prop) (names : List String) : SameNames ordered names names :=
  ⟨.refl _, fun _ => rfl⟩

theorem append (h : SameNames ordered names names') (hmore : SameNames ordered more more') :
    SameNames ordered (names ++ more) (names' ++ more') :=
  ⟨h.1.append hmore.1, fun ho => by rw [h.2 ho, hmore.2 ho]⟩

/-- A test that does not tell old names from new ones selects the same names. -/
theorem filter_map (h : SameNames ordered (names.map ρ) names') {test test' : String → Bool}
    (htest : ∀ x ∈ names, test' (ρ x) = test x) :
    SameNames ordered ((names.filter test).map ρ) (names'.filter test') := by
  have hfilter : (names.map ρ).filter test' = (names.filter test).map ρ := by
    rw [List.filter_map]
    congr 1
    exact List.filter_congr htest
  refine ⟨?_, fun ho => ?_⟩
  · rw [← hfilter]
    exact h.1.filter test'
  · rw [h.2 ho, hfilter]

/-- The first name that passes a test. Out of order it is the new name of another one that
does. -/
theorem find?_map (h : SameNames ordered (names.map ρ) names') (test test' : String → Bool)
    (htest : ∀ x, test' (ρ x) = test x) :
    match names.find? test with
    | none => names'.find? test' = none
    | some x => ∃ y ∈ names, test y ∧ names'.find? test' = some (ρ y) ∧ (ordered → y = x) := by
  have hmem (y : String) : y ∈ names' ↔ ∃ x ∈ names, ρ x = y := by
    rw [h.1.mem_iff, List.mem_map]
  cases hfind : names.find? test with
  | none =>
    refine List.find?_eq_none.2 fun y hy => ?_
    obtain ⟨x, hx, rfl⟩ := (hmem y).1 hy
    simpa [htest] using List.find?_eq_none.1 hfind x hx
  | some x =>
    have hx := List.mem_of_find?_eq_some hfind
    have hxtest : test x := List.find?_some hfind
    -- In order the same name comes first, and otherwise some name that passes does.
    by_cases ho : ordered
    · refine ⟨x, hx, hxtest, ?_, fun _ => rfl⟩
      have hcomp : test' ∘ ρ = test := funext htest
      rw [h.2 ho, List.find?_map, hcomp, hfind, Option.map_some]
    · cases hfind' : names'.find? test' with
      | none =>
        have := List.find?_eq_none.1 hfind' (ρ x) ((hmem _).2 ⟨x, hx, rfl⟩)
        exact absurd hxtest (by simpa [htest] using this)
      | some y' =>
        obtain ⟨y, hy, rfl⟩ := (hmem y').1 (List.mem_of_find?_eq_some hfind')
        have hytest : test' (ρ y) := List.find?_some hfind'
        exact ⟨y, hy, by rwa [htest] at hytest, rfl, fun h => absurd h ho⟩

end SameNames

namespace NameSet

variable {s : NameSet} {ρ : String → String}

/-- The new names of a set's names. -/
def map (s : NameSet) (ρ : String → String) : NameSet :=
  ofList (s.toList.map ρ)

theorem nodup_toList (s : NameSet) : s.toList.Nodup :=
  s.increasing.imp fun h => String.ne_of_lt h

/-- A set is listed in order; so is the set of new names, by the new names. -/
theorem toList_map (hρ : Function.Injective ρ) {ordered : Prop}
    (ho : ordered → ∀ x ∈ s.toList, ∀ y ∈ s.toList, x < y → ρ x < ρ y) :
    SameNames ordered (s.toList.map ρ) (s.map ρ).toList := by
  have hperm : (s.map ρ).toList.Perm (s.toList.map ρ) := by
    refine (List.perm_ext_iff_of_nodup (nodup_toList _) (s.nodup_toList.map hρ)).2 fun x => ?_
    rw [map, mem_toList_ofList]
  refine ⟨hperm, fun h => ?_⟩
  have hincreasing : (s.toList.map ρ).Pairwise (· < ·) := by
    rw [List.pairwise_map]
    exact s.increasing.imp_of_mem fun hx hy hlt => ho h _ hx _ hy hlt
  refine hperm.eq_of_pairwise (fun x y _ _ hxy hyx => ?_) (s.map ρ).increasing hincreasing
  exact absurd hyx (String.lt_asymm hxy)

end NameSet

namespace NameMap

variable {α : Type} {ρ : String → String}

/-- A map with new names and new values. -/
def renamed (m : NameMap α) (ρ : String → String) (value : α → α) : NameMap α :=
  m.entries.foldr (fun entry table => table.insert (ρ entry.1) (value entry.2)) empty

theorem get?_renamed (hρ : Function.Injective ρ) (m : NameMap α) (value : α → α) (x : String) :
    (m.renamed ρ value).get? (ρ x) = (m.get? x).map value := by
  unfold renamed get?
  induction m.entries with
  | nil => rfl
  | cons entry rest ih =>
    rw [List.foldr_cons, List.lookup_cons]
    refine get?_insert.trans ?_
    by_cases hx : x = entry.1
    · rw [if_pos (congrArg ρ hx)]
      simp [hx]
    · rw [if_neg (hρ.ne hx), beq_false_of_ne hx]
      exact ih

end NameMap

/-! ### Linkers under new names -/

/-- New names for constants and variables. -/
structure ValueNames where
  constants : String → String
  vars : String → String

namespace ValueNames

/-- The new name under a kind; functions keep their names. -/
def newName (σ : ValueNames) : KernelKind → String → String
  | .constant => σ.constants
  | .var => σ.vars
  | .function => id

/-- No two constants and no two variables get one name. -/
def Injective (σ : ValueNames) : Prop :=
  Function.Injective σ.constants ∧ Function.Injective σ.vars

theorem Injective.newName {σ : ValueNames} (h : σ.Injective) (kind : KernelKind) :
    Function.Injective (σ.newName kind) := by
  cases kind with
  | constant => exact h.1
  | var => exact h.2
  | function => exact Function.injective_id

end ValueNames

/-- A constant or variable under its new name. -/
def ValueKernel.renamed (ρ : String → String) (k : ValueKernel) : ValueKernel :=
  { k with name := ρ k.name }

/-- References under new names. -/
def Dependencies.renamed (σ : ValueNames) (d : Dependencies) : Dependencies :=
  { d with constants := d.constants.map σ.constants, vars := d.vars.map σ.vars }

/-- A function that refers to constants and variables by their new names. -/
def FunctionKernel.renamed (σ : ValueNames) (k : FunctionKernel) : FunctionKernel :=
  { k with deps := k.deps.renamed σ }

/-- A resolution with new names in place of the old ones. -/
def Resolution.renamed (σ : ValueNames) (r : Resolution) : Resolution :=
  { r with constants := r.constants.map σ.constants, vars := r.vars.map σ.vars }

/-- An error with the new name in place of the old one. -/
def LinkError.renamed (σ : ValueNames) : LinkError → LinkError
  | .missingConstant name requiredBy => .missingConstant (σ.constants name) requiredBy
  | .missingVariable name requiredBy => .missingVariable (σ.vars name) requiredBy
  | e => e

namespace Linker

variable {l : Linker} {σ : ValueNames} {entry name x : String} {kind : KernelKind}
  {k : FunctionKernel} {rest : List String}

/-- A linker with new names in its tables of constants and variables and in what its functions
refer to. -/
def renamed (σ : ValueNames) (l : Linker) : Linker where
  constants := l.constants.renamed σ.constants (.renamed σ.constants)
  vars := l.vars.renamed σ.vars (.renamed σ.vars)
  functions := l.functions.renamed id (.renamed σ)

theorem function?_renamed (σ : ValueNames) (l : Linker) (f : String) :
    (l.renamed σ).function? f = (l.function? f).map (.renamed σ) :=
  NameMap.get?_renamed Function.injective_id l.functions (.renamed σ) f

theorem has_renamed (hσ : σ.Injective) (kind : KernelKind) (x : String) :
    (l.renamed σ).has kind (σ.newName kind x) = l.has kind x := by
  cases kind with
  | constant =>
    exact (congrArg Option.isSome (NameMap.get?_renamed hσ.1 ..)).trans Option.isSome_map
  | var => exact (congrArg Option.isSome (NameMap.get?_renamed hσ.2 ..)).trans Option.isSome_map
  | function =>
    exact (congrArg Option.isSome (function?_renamed σ l x)).trans Option.isSome_map

end Linker

namespace ValueNames

/-- Among the names that an entry point uses, the new ones coincide where the old ones do, of
whichever kinds they are. -/
def KeepsApart (σ : ValueNames) (l : Linker) (entry : String) : Prop :=
  ∀ kind kind' x y, l.Uses entry kind x → l.Uses entry kind' y →
    (σ.newName kind x = σ.newName kind' y ↔ x = y)

/-- The new names that an entry point uses under a kind stand in the order of the old ones. -/
def KeepsOrder (σ : ValueNames) (l : Linker) (entry : String) : Prop :=
  ∀ kind x y, l.Uses entry kind x → l.Uses entry kind y → x < y →
    σ.newName kind x < σ.newName kind y

end ValueNames

namespace Linker

variable {l : Linker} {σ : ValueNames} {entry name x : String} {kind : KernelKind}
  {k : FunctionKernel} {rest : List String} {ordered : Prop}

/-- A resolution lists the same functions and the new names of the same constants and
variables. -/
structure MirrorsResolution (σ : ValueNames) (ordered : Prop) (r r' : Resolution) : Prop where
  functions_eq : r'.functions = r.functions
  constants : SameNames ordered (r.constants.map σ.constants) r'.constants
  vars : SameNames ordered (r.vars.map σ.vars) r'.vars

/-- A name is missing of a function that refers to it. -/
def IsMissing (l : Linker) (kind : KernelKind) (name requiredBy : String) : Prop :=
  name ∈ l.refs kind requiredBy ∧ l.has kind name = false

/-- An error blames the same function for the new name of a name that it lacks. -/
def MirrorsError (l : Linker) (σ : ValueNames) (ordered : Prop) : LinkError → LinkError → Prop
  | .missingConstant x requiredBy, e' =>
    ∃ y, l.IsMissing .constant y requiredBy ∧
      e' = .missingConstant (σ.constants y) requiredBy ∧ (ordered → y = x)
  | .missingVariable x requiredBy, e' =>
    ∃ y, l.IsMissing .var y requiredBy ∧
      e' = .missingVariable (σ.vars y) requiredBy ∧ (ordered → y = x)
  | e, e' => e' = e

/-- A result under new names is that under the old ones; under a condition, names and all. -/
def Mirrors (l : Linker) (σ : ValueNames) (ordered : Prop) :
    Except LinkError Resolution → Except LinkError Resolution → Prop
  | .ok r, .ok r' => MirrorsResolution σ ordered r r'
  | .error e, .error e' => l.MirrorsError σ ordered e e'
  | _, _ => False

/-- With the order kept, the result is the renamed one. -/
theorem Mirrors.eq {result result' : Except LinkError Resolution}
    (h : l.Mirrors σ ordered result result') (ho : ordered) :
    result' = (result.map (.renamed σ)).mapError (.renamed σ) := by
  match result, result', h with
  | .ok r, .ok r', h =>
    obtain ⟨hfunctions, hconstants, hvars⟩ := h
    have hr' : r' = r.renamed σ := by
      rw [Resolution.renamed, ← hfunctions, ← hconstants.2 ho, ← hvars.2 ho]
    rw [hr']
    rfl
  | .error e, .error e', h =>
    have he' : e' = e.renamed σ := by
      cases e with
      | missingConstant x requiredBy | missingVariable x requiredBy =>
        obtain ⟨y, -, rfl, hy⟩ := h
        rw [hy ho]
        rfl
      | unknownEntry | missingFunction | missingCode => exact h
    rw [he']
    rfl

/-! ### Checking references -/

/-- The references of a function in use, under new names. -/
theorem sameNames_refs (hσ : σ.Injective) (ho : ordered → σ.KeepsOrder l entry)
    (hk : l.function? name = some k) (hreach : l.Reaches entry name) (kind : KernelKind) :
    SameNames ordered ((k.deps.ofKind kind).map (σ.newName kind))
      ((k.renamed σ).deps.ofKind kind) := by
  have huses {x : String} (hx : x ∈ k.deps.ofKind kind) : l.Uses entry kind x :=
    hreach.uses (refs_eq hk kind ▸ hx)
  have hincreasing (h : ordered) (x : String) (hx : x ∈ k.deps.ofKind kind) (y : String)
      (hy : y ∈ k.deps.ofKind kind) (hlt : x < y) : σ.newName kind x < σ.newName kind y :=
    ho h kind x y (huses hx) (huses hy) hlt
  cases kind with
  | constant => exact NameSet.toList_map hσ.1 hincreasing
  | var => exact NameSet.toList_map hσ.2 hincreasing
  | function =>
    simp only [ValueNames.newName, List.map_id]
    exact .refl _ _

/-- A check under new names finds what a check under the old ones finds. -/
theorem checkDeps_renamed (hσ : σ.Injective) (ho : ordered → σ.KeepsOrder l entry)
    (hk : l.function? name = some k) (hreach : l.Reaches entry name) :
    match l.checkDeps k name with
    | .ok _ => (l.renamed σ).checkDeps (k.renamed σ) name = .ok ()
    | .error e =>
      ∃ e', (l.renamed σ).checkDeps (k.renamed σ) name = .error e' ∧
        l.MirrorsError σ ordered e e' := by
  have hfind (kind : KernelKind) :=
    (sameNames_refs hσ ho hk hreach kind).find?_map (!l.has kind ·) (!(l.renamed σ).has kind ·)
      fun x => congrArg not (has_renamed hσ kind x)
  have hmissing {kind : KernelKind} {x : String} (hx : x ∈ k.deps.ofKind kind)
      (hhas : (!l.has kind x) = true) : l.IsMissing kind x name :=
    ⟨refs_eq hk kind ▸ hx, by simpa using hhas⟩
  have hcontains (x : String) : (l.renamed σ).functions.contains x = l.functions.contains x :=
    has_renamed hσ .function x
  have hconstant := hfind .constant
  have hvar := hfind .var
  simp only [Dependencies.ofKind, has, FunctionKernel.renamed, Dependencies.renamed]
    at hconstant hvar
  -- The first kind with a missing name decides, on both sides.
  simp only [checkDeps, FunctionKernel.renamed, Dependencies.renamed, hcontains]
  cases hf : k.deps.functions.toList.find? (!l.functions.contains ·) with
  | some x => exact ⟨_, rfl, rfl⟩
  | none =>
    cases hc : k.deps.constants.toList.find? (!l.constants.contains ·) with
    | some x =>
      rw [hc] at hconstant
      obtain ⟨y, hmem, hhas, hy, heq⟩ := hconstant
      simp only [hy]
      exact ⟨_, rfl, y, hmissing hmem hhas, rfl, heq⟩
    | none =>
      rw [hc] at hconstant
      cases hv : k.deps.vars.toList.find? (!l.vars.contains ·) with
      | some x =>
        rw [hv] at hvar
        obtain ⟨y, hmem, hhas, hy, heq⟩ := hvar
        simp only [hconstant, hy]
        exact ⟨_, rfl, y, hmissing hmem hhas, rfl, heq⟩
      | none =>
        rw [hv] at hvar
        simp only [hconstant, hvar]

/-! ### Two walks in step -/

/-- A name was met in one walk if its new name was met in the other. -/
def SeenAlike (σ : ValueNames) (l : Linker) (entry : String) (seen seen' : List String) : Prop :=
  ∀ kind x, l.Uses entry kind x → (σ.newName kind x ∈ seen' ↔ x ∈ seen)

/-- Two walks met the same names, and the same functions wait in both. -/
structure InStep (σ : ValueNames) (l : Linker) (entry : String) (ordered : Prop)
    (p p' : Progress) : Prop where
  queue_eq : p'.queue = p.queue
  found : MirrorsResolution σ ordered p.found p'.found
  seen : SeenAlike σ l entry p.seen p'.seen

section SeenAlike

variable {seen seen' names names' : List String}

/-- Names in use and their new names are met alike. -/
theorem SeenAlike.append (h : SeenAlike σ l entry seen seen') (hapart : σ.KeepsApart l entry)
    (huses : ∀ x ∈ names, l.Uses entry kind x)
    (hnames : names'.Perm (names.map (σ.newName kind))) :
    SeenAlike σ l entry (seen ++ names) (seen' ++ names') := by
  intro kind' x hx
  have hnew : σ.newName kind' x ∈ names' ↔ x ∈ names := by
    rw [hnames.mem_iff, List.mem_map]
    -- A new name that coincides with one of another kind does so because the old names do.
    constructor
    · rintro ⟨y, hy, heq⟩
      rwa [← (hapart kind kind' y x (huses y hy) hx).1 heq]
    · exact fun hmem => ⟨x, hmem, (hapart kind kind' x x (huses x hmem) hx).2 rfl⟩
  rw [List.mem_append, List.mem_append, h kind' x hx, hnew]

/-- Names that were not met have new names that were not met. -/
theorem SeenAlike.filter (h : SeenAlike σ l entry seen seen')
    (huses : ∀ x ∈ names, l.Uses entry kind x)
    (hnames : SameNames ordered (names.map (σ.newName kind)) names') :
    SameNames ordered ((names.filter (!seen.contains ·)).map (σ.newName kind))
      (names'.filter (!seen'.contains ·)) := by
  refine hnames.filter_map fun x hx => ?_
  have := h kind x (huses x hx)
  simp [this]

end SeenAlike

open Progress

theorem inStep_initial (hapart : σ.KeepsApart l entry) :
    InStep σ l entry ordered (initial entry) (initial entry) where
  queue_eq := rfl
  found := ⟨rfl, .refl _ _, .refl _ _⟩
  seen kind x hx := by
    -- A constant may have the entry point's name, but then its new name is that name too.
    have := hapart kind .function x entry hx (.inl ⟨rfl, rfl⟩)
    simpa [initial, ValueNames.newName] using this

/-- Visits to one function keep two walks in step. -/
theorem InStep.visit {p p' : Progress} (h : InStep σ l entry ordered p p') (hσ : σ.Injective)
    (hapart : σ.KeepsApart l entry) (ho : ordered → σ.KeepsOrder l entry)
    (hk : l.function? name = some k) (hreach : l.Reaches entry name) (rest : List String) :
    InStep σ l entry ordered (visit { p with queue := rest } name k)
      (visit { p' with queue := rest } name (k.renamed σ)) := by
  have huses (kind : KernelKind) (x : String) (hx : x ∈ k.deps.ofKind kind) :
      l.Uses entry kind x :=
    hreach.uses (refs_eq hk kind ▸ hx)
  have hnew (kind : KernelKind) (test : String → Bool) :
      ∀ x ∈ (k.deps.ofKind kind).filter test, l.Uses entry kind x :=
    fun x hx => huses kind x (List.mem_filter.1 hx).1
  have hrefs := sameNames_refs hσ ho hk hreach
  have hfunctions : k.deps.functions.toList.filter (!p'.seen.contains ·) =
      k.deps.functions.toList.filter (!p.seen.contains ·) := by
    refine List.filter_congr fun x hx => ?_
    have := h.seen .function x (huses .function x hx)
    simp only [ValueNames.newName, id_eq] at this
    simp [this]
  -- Functions are noted first, then constants, then variables, each after the names before.
  have hseen := h.seen.append hapart (hnew .function (!p.seen.contains ·))
    (.of_eq (List.map_id _).symm)
  have hconstants := hseen.filter (huses .constant) (hrefs .constant)
  have hseen := hseen.append hapart (hnew .constant _) hconstants.1
  have hvars := hseen.filter (huses .var) (hrefs .var)
  have hseen := hseen.append hapart (hnew .var _) hvars.1
  simp only [Dependencies.ofKind, FunctionKernel.renamed, Dependencies.renamed] at *
  -- Queues and functions are equal; constants and variables are alike under their new names.
  refine ⟨?_, ⟨?_, ?_, ?_⟩, ?_⟩
  · simp only [Progress.visit, hfunctions]
  · simp only [Progress.visit, h.found.functions_eq]
  · simp only [Progress.visit, hfunctions, List.map_append]
    exact h.found.constants.append hconstants
  · simp only [Progress.visit, hfunctions, List.map_append]
    exact h.found.vars.append hvars
  · simp only [Progress.visit, hfunctions]
    exact hseen

/-- The induction is on the steps left. -/
theorem resolveSteps_renamed {p p' : Progress} (h : InStep σ l entry ordered p p')
    (hp : p.Traced l entry) (hσ : σ.Injective) (hapart : σ.KeepsApart l entry)
    (ho : ordered → σ.KeepsOrder l entry) (n : Nat) :
    l.Mirrors σ ordered (l.resolveSteps n p) ((l.renamed σ).resolveSteps n p') := by
  induction n generalizing p p' with
  | zero => exact h.found
  | succ n ih =>
    cases hq : p.queue with
    | nil =>
      rw [resolveSteps_nil hq, resolveSteps_nil (h.queue_eq.trans hq)]
      exact h.found
    | cons name rest =>
      obtain ⟨k, hk⟩ := function?_of_has (hp.registered name (by simp [listed, hq]))
      -- Functions keep their names, so both walks visit the same one.
      have hk' : (l.renamed σ).function? name = some (k.renamed σ) := by
        rw [function?_renamed, hk, Option.map_some]
      have hreach := hp.reaches_head hq
      rw [resolveSteps_cons hq hk, resolveSteps_cons (h.queue_eq.trans hq) hk']
      have hcheck' := checkDeps_renamed hσ ho hk hreach
      cases hcheck : l.checkDeps k name with
      | error e =>
        rw [hcheck] at hcheck'
        obtain ⟨e', he', hmirrors⟩ := hcheck'
        rw [he']
        exact hmirrors
      | ok _ =>
        rw [hcheck] at hcheck'
        rw [hcheck']
        exact ih (h.visit hσ hapart ho hk hreach rest)
          (hp.visit hq hk (checkDeps_ok hk hcheck))

/-- Under new names for constants and variables that keep names of different kinds as they were,
apart or together, a resolution lists the same functions and the new names of the same constants
and variables, or fails in the same way; and it gives exactly the renamed result if the new names
are in the order of the old ones. -/
theorem resolve_renamed (hσ : σ.Injective) (hapart : σ.KeepsApart l entry) :
    l.Mirrors σ (σ.KeepsOrder l entry) (l.resolve entry) ((l.renamed σ).resolve entry) ∧
      (σ.KeepsOrder l entry →
        (l.renamed σ).resolve entry =
          ((l.resolve entry).map (.renamed σ)).mapError (.renamed σ)) := by
  have hmirrors :
      l.Mirrors σ (σ.KeepsOrder l entry) (l.resolve entry) ((l.renamed σ).resolve entry) := by
    have hhas : (l.renamed σ).has .function entry = l.has .function entry :=
      has_renamed hσ .function entry
    cases hentry : l.has .function entry with
    | false =>
      rw [resolve_unknown hentry, resolve_unknown (hhas.trans hentry)]
      exact rfl
    | true =>
      -- Both walks are run for as many steps as the longer one may take.
      rw [resolve_eq_resolveSteps hentry (Nat.le_max_left _ (l.renamed σ).functions.size),
        resolve_eq_resolveSteps (hhas.trans hentry) (Nat.le_max_right l.functions.size _)]
      exact resolveSteps_renamed (inStep_initial hapart) (traced_initial hentry) hσ hapart id _
  exact ⟨hmirrors, hmirrors.eq⟩

/-- New names that exchange a constant with a name that is not in use, and a variable with
another. -/
def exchangedNames : ValueNames := ⟨Equiv.swap "P" "Q", Equiv.swap "s" "t"⟩

theorem exchangedNames_injective : exchangedNames.Injective :=
  ⟨Equiv.injective _, Equiv.injective _⟩

theorem keepsApart_exchangedNames : exchangedNames.KeepsApart cyclicPair "f" := by
  have hall : ∀ a ∈ [("f", KernelKind.function), ("g", .function), ("P", .constant), ("s", .var)],
      ∀ b ∈ [("f", KernelKind.function), ("g", .function), ("P", .constant), ("s", .var)],
      (exchangedNames.newName a.2 a.1 = exchangedNames.newName b.2 b.1 ↔ a.1 = b.1) := by
    decide +kernel
  intro kind kind' x y hx hy
  exact hall (x, kind) (uses_cyclicPair hx) (y, kind') (uses_cyclicPair hy)

theorem resolve_renamed_cyclicPair :
    exchangedNames.Injective ∧ exchangedNames.KeepsApart cyclicPair "f" ∧
      cyclicPair.Mirrors exchangedNames (exchangedNames.KeepsOrder cyclicPair "f")
        (cyclicPair.resolve "f") ((cyclicPair.renamed exchangedNames).resolve "f") ∧
      (cyclicPair.renamed exchangedNames).resolve "f" = .ok ⟨["f", "g"], ["Q"], ["t"]⟩ :=
  ⟨exchangedNames_injective, keepsApart_exchangedNames,
    (resolve_renamed exchangedNames_injective keepsApart_exchangedNames).1, by decide +kernel⟩

/-- A function refers to a constant; another one calls a function of the same name. -/
def sharedName : Linker :=
  let function (name : String) (calls constants : List String) : Kernel :=
    .function ⟨name, [], .float, ⟨.ofList calls, .ofList constants, .empty⟩, none, none⟩
  empty.registerAll
    [function "f" ["g"] ["P"], function "g" ["P"] [], function "P" [] [],
      .constant ⟨"P", .float, .scalar .nan, []⟩]

/-- The function is left out because the constant has its name: with another name for the
constant it is there. -/
theorem resolve_renamed_sharedName :
    exchangedNames.Injective ∧
      sharedName.resolve "f" = .ok ⟨["f", "g"], ["P"], []⟩ ∧
      (sharedName.renamed exchangedNames).resolve "f" = .ok ⟨["f", "g", "P"], ["Q"], []⟩ :=
  ⟨exchangedNames_injective, by decide +kernel, by decide +kernel⟩

end Linker

end MathKernel
