import Mathlib.Data.List.Forall2
import MathKernel.Proofs.Kernel.Extraction

/-!
# Which declarations of a variable are recorded

Each declaration of a variable that is not external gives a kernel of its own, with its own value,
whether it has an initializer or not. So a variable that is defined once has one kernel, which holds
the value of its initializer. One that is defined again without an initializer, which in C changes
nothing, has two kernels of one name, and one of them holds zero.

## Main definitions

* `SourceUnit.definitions`, `SourceUnit.definitionsOf` — the declarations that give records
* `valuesOf` — the records of a variable
* `constantsOf` — the constants that kernels record
* `Decl.RecordedIn` — the record of a definition, given the constants before it

## Main results

* `forall₂_recordedIn` — each definition gives one record, in order
* `SourceUnit.extract_recordsOnce` — the records of a variable that is defined once
-/

namespace MathKernel

/-- The declaration of a variable has a name and is not external. -/
def Decl.isDefinition (d : Decl) : Bool :=
  !d.isExternal && d.name.isSome

theorem Decl.not_isDefinition (d : Decl) (h : d.isExternal = true ∨ d.name = none) :
    ¬ d.isDefinition = true := by
  rcases h with h | h <;> simp [isDefinition, h]

/-- The declarations of variables that are not external. -/
def SourceUnit.definitions (u : SourceUnit) : List Decl :=
  u.globals.filter Decl.isDefinition

/-- The declarations of a variable that are not external. -/
def SourceUnit.definitionsOf (x : String) (u : SourceUnit) : List Decl :=
  u.definitions.filter (·.name == some x)

/-- The records of a variable. -/
def valuesOf (x : String) (kernels : List Kernel) : List ValueKernel :=
  (kernels.filterMap Kernel.value?).filter (·.name == x)

/-- The constants that kernels record, the latest first. -/
def constantsOf (kernels : List Kernel) : KnownConstants Binary64 :=
  (kernels.filterMap Kernel.constant?).reverse

theorem constantsOf_cons (k : Kernel) (kernels : List Kernel) :
    constantsOf (k :: kernels) = constantsOf kernels ++ k.constant?.toList := by
  unfold constantsOf
  cases hk : k.constant? <;> simp [hk]

/-! ### Records in order -/

/-- The record of a variable is folded from the declaration, given the constants that the kernels
before it record and those that were known at first. -/
def Decl.RecordedIn (known : KnownConstants Binary64) (kernels : List Kernel) (d : Decl)
    (v : ValueKernel) : Prop :=
  d.name = some v.name ∧ ∃ before k after, kernels = before ++ k :: after ∧ k.value? = some v ∧
    d.foldValue (constantsOf before ++ known) v.name = .ok v

section Run

variable {globals : GlobalNames} {known : KnownConstants Binary64} {kernels : List Kernel}
  {d : Decl} {v : ValueKernel} {k : Kernel}

theorem Decl.RecordedIn.here (hname : d.name = some v.name) (hk : k.value? = some v)
    (hfold : d.foldValue known v.name = .ok v) : d.RecordedIn known (k :: kernels) v :=
  ⟨hname, [], k, kernels, rfl, hk, hfold⟩

theorem Decl.RecordedIn.later (h : d.RecordedIn (k.constant?.toList ++ known) kernels v) :
    d.RecordedIn known (k :: kernels) v := by
  obtain ⟨hname, before, k', after, rfl, hv, hfold⟩ := h
  refine ⟨hname, k :: before, k', after, rfl, hv, ?_⟩
  rwa [constantsOf_cons, List.append_assoc]

/-- Each definition gives one record, in order. -/
theorem forall₂_recordedIn {items : List Item}
    (h : extractItems globals known items = .ok kernels) :
    List.Forall₂ (Decl.RecordedIn known kernels)
      ((items.filterMap Item.global?).filter Decl.isDefinition)
      (kernels.filterMap Kernel.value?) := by
  induction items generalizing known kernels with
  | nil =>
    cases h
    exact .nil
  | cons item rest ih =>
    obtain ⟨hnothing, h⟩ | ⟨k, others, hgives, hothers, rfl⟩ := extractItems_cons_eq_ok h
    · rcases hnothing.global?_cases with hnone | ⟨d, hd, hskipped⟩
      · rw [List.filterMap_cons_none hnone]
        exact ih h
      · rw [List.filterMap_cons_some hd, List.filter_cons_of_neg (d.not_isDefinition hskipped)]
        exact ih h
    have hlater := (ih hothers).imp fun _ _ hrecorded => Decl.RecordedIn.later (k := k) hrecorded
    cases hgives with
    | function hk => exact hlater
    | @value d v hfunction hexternal hname hfold =>
      rw [List.filterMap_cons_some (Item.global?_of_not_isFunction hfunction),
        List.filter_cons_of_pos (by simp [Decl.isDefinition, hexternal, hname]),
        List.filterMap_cons_some (globals.record_value? v)]
      exact .cons (.here hname (globals.record_value? v) hfold) hlater

end Run

/-! ### Units -/

namespace SourceUnit

variable {u : SourceUnit} {config : ExtractConfig} {kernels : List Kernel}

/-- The records of a variable are folded from its definitions, one from each. -/
theorem forall₂_definitionsOf (hexports : config.exports = none)
    (h : u.extract config = .ok kernels) (x : String) :
    List.Forall₂ (Decl.RecordedIn [] kernels) (u.definitionsOf x) (valuesOf x kernels) := by
  obtain ⟨all, hall, h⟩ := Except.bind_eq_ok h
  rw [hexports] at h
  cases h
  have hrecords := forall₂_recordedIn hall
  rw [← globals] at hrecords
  refine List.rel_filter (fun d v hrecorded => ?_) hrecords
  obtain ⟨hname, -⟩ := hrecorded
  simp [hname]

/-- A reduction to exports keeps all records of a variable or none. -/
theorem valuesOf_retainReachable (exports : List String) (kernels : List Kernel) (x : String) :
    valuesOf x (retainReachable exports kernels) =
      if (reachableNames exports kernels).contains x then valuesOf x kernels else [] := by
  -- Whether a record of the name is kept is a matter of the name alone.
  have hpointwise (k : Kernel) :
      (if (reachableNames exports kernels).contains k.name then
        k.value?.filter (·.name == x) else none) =
      if (reachableNames exports kernels).contains x then k.value?.filter (·.name == x)
        else none := by
    cases hk : k.value?.filter (·.name == x) with
    | none => simp
    | some v =>
      obtain ⟨hv, hname⟩ := Option.filter_eq_some_iff.1 hk
      have hname : k.name = x := by
        cases k with
        | constant v' | var v' =>
          cases hv
          exact eq_of_beq hname
        | function f => cases hv
      rw [hname]
  unfold valuesOf retainReachable
  rw [List.filter_filterMap, List.filter_filterMap, List.filterMap_filter]
  simp only [hpointwise]
  split
  · rfl
  · exact List.filterMap_eq_nil_iff.2 fun _ _ => rfl

/-- What is recorded of a variable is what is recorded of it in the whole unit, or nothing, because
nothing that is exported leads to it. -/
theorem valuesOf_extract (h : u.extract config = .ok kernels) (x : String) :
    ∃ all, u.extract { config with exports := none } = .ok all ∧
      (valuesOf x kernels = valuesOf x all ∨
        config.exports.isSome ∧ valuesOf x kernels = []) := by
  obtain ⟨all, hall, h⟩ := Except.bind_eq_ok h
  refine ⟨all, by rw [extract, hall]; rfl, ?_⟩
  cases hexports : config.exports with
  | none =>
    rw [hexports] at h
    cases h
    exact .inl rfl
  | some exports =>
    rw [hexports] at h
    cases h
    rw [valuesOf_retainReachable]
    split
    · exact .inl rfl
    · exact .inr ⟨rfl, rfl⟩

/-- A variable that is defined once has one record in the whole unit, that of its definition. -/
theorem valuesOf_eq_singleton (hexports : config.exports = none)
    (h : u.extract config = .ok kernels) {x : String} (honce : (u.definitionsOf x).length ≤ 1)
    {d : Decl} (hd : d ∈ u.definitionsOf x) :
    ∃ v, valuesOf x kernels = [v] ∧ d.RecordedIn [] kernels v := by
  have hrecords := forall₂_definitionsOf hexports h x
  obtain ⟨first, hdefs⟩ : ∃ first, u.definitionsOf x = [first] :=
    List.length_eq_one_iff.1 (Nat.le_antisymm honce (List.length_pos_of_mem hd))
  rw [hdefs] at hd hrecords
  obtain rfl := List.mem_singleton.1 hd
  obtain ⟨v, others, hrecorded, hothers, hvalues⟩ := List.forall₂_cons_left_iff.1 hrecords
  rw [List.forall₂_nil_left_iff.1 hothers] at hvalues
  exact ⟨v, hvalues, hrecorded⟩

/-- A variable has as many records as definitions, unless it is left out because nothing that is
exported leads to it. One that is defined once has at most one record, and this is folded from the
definition, given the constants that are recorded before it in the whole unit. -/
theorem extract_recordsOnce (h : u.extract config = .ok kernels) (x : String) :
    ((valuesOf x kernels).length = (u.definitionsOf x).length ∨
      config.exports.isSome ∧ valuesOf x kernels = []) ∧
    ((u.definitionsOf x).length ≤ 1 → (valuesOf x kernels).length ≤ 1 ∧
      ∀ d ∈ u.definitionsOf x, (config.exports = none → valuesOf x kernels ≠ []) ∧
        ∀ v ∈ valuesOf x kernels, ∃ all, u.extract { config with exports := none } = .ok all ∧
          d.RecordedIn [] all v) := by
  obtain ⟨all, hall, hkept⟩ := valuesOf_extract h x
  have hlength := (forall₂_definitionsOf rfl hall x).length_eq
  refine ⟨hkept.imp_left fun hsame => by rw [hsame, hlength], fun honce => ⟨?_, fun d hd => ?_⟩⟩
  · rcases hkept with hsame | ⟨-, hnil⟩
    · rwa [hsame, ← hlength]
    · simp [hnil]
  obtain ⟨v, hvalues, hrecorded⟩ := valuesOf_eq_singleton rfl hall honce hd
  rw [hvalues] at hkept
  refine ⟨fun hexports => ?_, fun v' hv' => ⟨all, hall, ?_⟩⟩
  · rcases hkept with hsame | ⟨hsome, -⟩
    · rw [hsame]
      exact List.cons_ne_nil _ _
    · rw [hexports] at hsome
      cases hsome
  · rcases hkept with hsame | ⟨-, hnil⟩
    · rw [hsame] at hv'
      rwa [List.mem_singleton.1 hv']
    · rw [hnil] at hv'
      cases hv'

end SourceUnit

/-! ### Examples -/

/-- The texts of the numbers that are recorded of a variable of a unit. -/
def recordedTexts (u : SourceUnit) (x : String) : Option (List (List String)) :=
  (u.extract {}).toOption.map fun kernels => (valuesOf x kernels).map ValueKernel.literals

/-- The declaration `extern float pi;`. -/
def externalPi : Decl :=
  { Decl.ofScalar "pi" .float none with storage := [.external] }

/-- The unit `extern float pi; float pi = 3.25; float tau = 2 * pi; extern float pi;
float rest;`. -/
def piUnit : SourceUnit :=
  ⟨[.decl externalPi, .decl (.ofScalar "pi" .float (some (.float "3.25" none))),
    .decl (.ofScalar "tau" .float (some (.binary .mul (.int 2 none) (.id "pi" none) none))),
    .decl externalPi, .decl (.ofScalar "rest" .float none)], none⟩

/-- External declarations on both sides do not matter. -/
theorem extract_recordsOnce_piUnit :
    ∃ kernels v, piUnit.extract {} = .ok kernels ∧ valuesOf "tau" kernels = [v] ∧
      v.literals = ["6.5"] ∧ ∃ d ∈ piUnit.definitionsOf "tau", d.RecordedIn [] kernels v := by
  have hok : recordedTexts piUnit "tau" = some [["6.5"]] := by decide +kernel
  obtain ⟨kernels, hkernels, hvalues⟩ := Option.map_eq_some_iff.1 hok
  have hkernels := Except.eq_ok_of_toOption hkernels
  obtain ⟨v, hv, htexts⟩ := List.map_eq_singleton_iff.1 hvalues
  obtain ⟨-, honce⟩ := SourceUnit.extract_recordsOnce hkernels "tau"
  obtain ⟨-, hrecords⟩ := honce (by decide)
  obtain ⟨d, hd⟩ : ∃ d, d ∈ piUnit.definitionsOf "tau" := ⟨_, .head _⟩
  obtain ⟨all, hall, hrecorded⟩ := (hrecords d hd).2 v (by simp [hv])
  obtain rfl : all = kernels := Except.ok.inj (hall.symm.trans hkernels)
  exact ⟨all, v, hkernels, hv, htexts, d, hd, hrecorded⟩

/-- The variable `float g = 1.5;`. -/
def initializedG : Decl :=
  .ofScalar "g" .float (some (.float "1.5" none))

/-- A second declaration without an initializer gives a second record, which holds zero. An
initialized declaration that is external gives none. -/
theorem recordedTexts_redeclared :
    recordedTexts ⟨[.decl initializedG, .decl (.ofScalar "g" .float none)], none⟩ "g" =
      some [["1.5"], ["0.0"]] ∧
    recordedTexts ⟨[.decl (.ofScalar "g" .float none), .decl initializedG], none⟩ "g" =
      some [["0.0"], ["1.5"]] ∧
    recordedTexts ⟨[.decl { initializedG with storage := [.external] }], none⟩ "g" = some [] := by
  decide +kernel

end MathKernel
