import MathKernel.Proofs.Link.Closure

/-!
# The walk under any names

Some facts about a resolution do not depend on whether a name is in use under two kinds: each
function is met once, whatever is listed is in use, and so the steps never run out. They make a
resolution a matter of the names in use only: two linkers that agree on them give one result.

## Main definitions

* `Linker.Progress.Traced` — what every resolution under way satisfies

## Main results

* `Linker.resolveSteps_cons` — one step of the walk
* `Linker.resolveSteps_steps` — any number of steps that suffices gives the same
* `Linker.resolve_uses` — all that a resolution lists is in use
* `Linker.resolve_congr` — a resolution looks up names in use only
-/

namespace MathKernel

namespace Linker

variable {l l' : Linker} {entry f name : String} {k : FunctionKernel} {rest : List String}

/-- A function in use is reached. -/
theorem Uses.reaches (h : l.Uses entry .function f) : l.Reaches entry f := by
  rcases h with ⟨-, rfl⟩ | ⟨g, hg, hf⟩
  · exact .refl
  · exact hg.tail hf

namespace Progress

variable {p : Progress}

/-- The invariant of the walk that does not depend on the kinds of names. -/
structure Traced (l : Linker) (entry : String) (p : Progress) : Prop where
  nodup : (p.listed .function).Nodup
  subset_seen : p.listed .function ⊆ p.seen
  uses : ∀ kind, ∀ x ∈ p.listed kind, l.Uses entry kind x
  registered : ∀ f ∈ p.listed .function, l.has .function f

/-- The walk before its first step. -/
def initial (entry : String) : Progress :=
  { seen := [entry], queue := [entry], found := .empty }

theorem traced_initial (h : l.has .function entry) : (initial entry).Traced l entry where
  nodup := by simp [listed, initial, Resolution.empty]
  subset_seen := by simp [listed, initial, Resolution.empty]
  uses kind x hx := by
    cases kind with
    | function =>
      obtain rfl : x = entry := by simpa [listed, initial, Resolution.empty] using hx
      exact .inl ⟨rfl, rfl⟩
    | constant | var => simp [listed, initial, Resolution.empty] at hx
  registered f hf := by
    obtain rfl : f = entry := by simpa [listed, initial, Resolution.empty] using hf
    exact h

/-- The next function is reached. -/
theorem Traced.reaches_head (hp : p.Traced l entry) (hq : p.queue = name :: rest) :
    l.Reaches entry name :=
  (hp.uses .function name (by simp [listed, hq])).reaches

/-- A visit lists the functions that were not met before. -/
theorem listed_function_visit (hq : p.queue = name :: rest) :
    (visit { p with queue := rest } name k).listed .function =
      p.listed .function ++ k.deps.functions.toList.filter (!p.seen.contains ·) := by
  simp [visit, listed, hq]

/-- What a visit lists was listed before or is referred to by the visited function. -/
theorem mem_listed_visit (hq : p.queue = name :: rest) {kind : KernelKind} {x : String}
    (hx : x ∈ (visit { p with queue := rest } name k).listed kind) :
    x ∈ p.listed kind ∨ x ∈ k.deps.ofKind kind := by
  cases kind with
  | function =>
    rw [listed_function_visit hq] at hx
    exact (List.mem_append.1 hx).imp_right fun h => (List.mem_filter.1 h).1
  | constant | var =>
    exact (List.mem_append.1 hx).imp_right fun h => (List.mem_filter.1 h).1

/-- A visit to a function whose references are registered keeps the invariant. -/
theorem Traced.visit (hp : p.Traced l entry) (hq : p.queue = name :: rest)
    (hk : l.function? name = some k) (hdeps : ∀ kind, ∀ x ∈ l.refs kind name, l.has kind x) :
    (Progress.visit { p with queue := rest } name k).Traced l entry := by
  refine ⟨?_, ?_, fun kind x hx => ?_, fun f hf => ?_⟩
  · -- All that is listed was met, and only what was not met is added.
    rw [listed_function_visit hq]
    refine hp.nodup.append ((k.deps.nodup_ofKind .function).filter _) fun f hf hnew => ?_
    have hfresh := (List.mem_filter.1 hnew).2
    simp [hp.subset_seen hf] at hfresh
  · intro f hf
    rw [mem_seen_visit]
    rcases mem_listed_visit hq hf with hf | hf
    · exact .inl (hp.subset_seen hf)
    · exact .inr ⟨.function, hf⟩
  · rcases mem_listed_visit hq hx with hx | hx
    · exact hp.uses kind x hx
    · exact (hp.reaches_head hq).uses (refs_eq hk kind ▸ hx)
  · rcases mem_listed_visit hq hf with hf | hf
    · exact hp.registered f hf
    · exact hdeps .function f (refs_eq hk .function ▸ hf)

/-- Once as many functions are visited as are registered, none waits. -/
theorem Traced.queue_eq_nil (hp : p.Traced l entry)
    (h : l.functions.size ≤ p.found.functions.length) : p.queue = [] := by
  have hlen := length_le_size hp.nodup hp.registered
  simp only [listed, List.length_append] at hlen
  exact List.length_eq_zero_iff.1 (by omega)

end Progress

open Progress

variable {p : Progress}

/-- Nothing is left to do. -/
theorem resolveSteps_nil (hq : p.queue = []) (n : Nat) : l.resolveSteps n p = .ok p.found := by
  cases n <;> simp [resolveSteps, hq]

/-- One step: the function that waits longest is checked and visited. -/
theorem resolveSteps_cons (hq : p.queue = name :: rest) (hk : l.function? name = some k)
    (n : Nat) :
    l.resolveSteps (n + 1) p =
      (do l.checkDeps k name; l.resolveSteps n (visit { p with queue := rest } name k)) := by
  simp only [resolveSteps, hq, hk]

theorem resolve_unknown (h : l.has .function entry = false) :
    l.resolve entry = .error (.unknownEntry entry) := by
  rw [resolve, if_neg]
  simpa [has] using h

/-- Two numbers of steps that both suffice give the same. -/
theorem resolveSteps_steps (hp : p.Traced l entry) {n m : Nat}
    (hn : l.functions.size ≤ n + p.found.functions.length)
    (hm : l.functions.size ≤ m + p.found.functions.length) :
    l.resolveSteps n p = l.resolveSteps m p := by
  induction n generalizing m p with
  | zero =>
    -- With no step left every function has been visited, so none waits.
    have hq := hp.queue_eq_nil (by omega)
    rw [resolveSteps_nil hq, resolveSteps_nil hq]
  | succ n ih =>
    cases hq : p.queue with
    | nil => rw [resolveSteps_nil hq, resolveSteps_nil hq]
    | cons name rest =>
      obtain ⟨k, hk⟩ := function?_of_has (hp.registered name (by simp [listed, hq]))
      cases m with
      | zero => exact absurd (hp.queue_eq_nil (by omega)) (by simp [hq])
      | succ m =>
        rw [resolveSteps_cons hq hk, resolveSteps_cons hq hk]
        cases hcheck : l.checkDeps k name with
        | error e => rfl
        | ok _ =>
          refine ih (hp.visit hq hk (checkDeps_ok hk hcheck)) ?_ ?_ <;>
            simp only [Progress.visit, List.length_append, List.length_singleton] <;>
            omega

/-- A resolution takes as many steps as there are functions, or more. -/
theorem resolve_eq_resolveSteps (h : l.has .function entry) {n : Nat}
    (hn : l.functions.size ≤ n) : l.resolve entry = l.resolveSteps n (initial entry) := by
  have hresolve : l.resolve entry = l.resolveSteps l.functions.size (initial entry) := if_pos h
  rw [hresolve]
  exact resolveSteps_steps (traced_initial h) (Nat.le_add_right ..) (by omega)

/-- A walk that ends well ends in a state of the walk. -/
theorem resolveSteps_traced (hp : p.Traced l entry) {n : Nat} {r : Resolution}
    (h : l.resolveSteps n p = .ok r) : ∃ q : Progress, q.Traced l entry ∧ q.found = r := by
  induction n generalizing p with
  | zero => exact ⟨p, hp, Except.ok.inj h⟩
  | succ n ih =>
    cases hq : p.queue with
    | nil =>
      rw [resolveSteps_nil hq] at h
      exact ⟨p, hp, Except.ok.inj h⟩
    | cons name rest =>
      obtain ⟨k, hk⟩ := function?_of_has (hp.registered name (by simp [listed, hq]))
      rw [resolveSteps_cons hq hk] at h
      cases hcheck : l.checkDeps k name with
      | error e =>
        rw [hcheck] at h
        cases h
      | ok _ =>
        rw [hcheck] at h
        exact ih (hp.visit hq hk (checkDeps_ok hk hcheck)) h

/-- All that a resolution lists is in use under the kind it is listed as. -/
theorem resolve_uses {r : Resolution} (h : l.resolve entry = .ok r) :
    (∀ f ∈ r.functions, l.Uses entry .function f) ∧
      (∀ c ∈ r.constants, l.Uses entry .constant c) ∧ ∀ v ∈ r.vars, l.Uses entry .var v := by
  cases hentry : l.has .function entry with
  | false =>
    rw [resolve_unknown hentry] at h
    cases h
  | true =>
    rw [resolve_eq_resolveSteps hentry (Nat.le_refl _)] at h
    obtain ⟨q, hq, rfl⟩ := resolveSteps_traced (traced_initial hentry) h
    refine ⟨fun f hf => hq.uses .function f ?_, hq.uses .constant, hq.uses .var⟩
    exact List.mem_append_left _ hf

/-! ### Linkers that agree on the names in use -/

/-- Two linkers have the same kernels under the names that an entry point uses. -/
structure Agrees (l l' : Linker) (entry : String) : Prop where
  function?_eq : ∀ f, l.Uses entry .function f → l'.function? f = l.function? f
  constant?_eq : ∀ c, l.Uses entry .constant c → l'.constant? c = l.constant? c
  var?_eq : ∀ v, l.Uses entry .var v → l'.var? v = l.var? v

theorem Agrees.has_eq (h : l.Agrees l' entry) {kind : KernelKind} (hname : l.Uses entry kind name) :
    l'.has kind name = l.has kind name := by
  cases kind with
  | function => exact congrArg Option.isSome (h.function?_eq name hname)
  | constant => exact congrArg Option.isSome (h.constant?_eq name hname)
  | var => exact congrArg Option.isSome (h.var?_eq name hname)

theorem checkDeps_congr (hk : l.function? name = some k) (hreach : l.Reaches entry name)
    (h : l.Agrees l' entry) : l'.checkDeps k name = l.checkDeps k name := by
  have hfind (kind : KernelKind) :
      (k.deps.ofKind kind).find? (!l'.has kind ·) = (k.deps.ofKind kind).find? (!l.has kind ·) := by
    -- The tests agree on the references only, which `find?` itself does not tell.
    rw [← List.head?_filter, ← List.head?_filter]
    congr 1
    refine List.filter_congr fun x hx => ?_
    rw [h.has_eq (hreach.uses (refs_eq hk kind ▸ hx))]
  have hfunction := hfind .function
  have hconstant := hfind .constant
  have hvar := hfind .var
  simp only [Dependencies.ofKind, has] at hfunction hconstant hvar
  simp only [checkDeps, hfunction, hconstant, hvar]

theorem resolveSteps_congr (h : l.Agrees l' entry) (hp : p.Traced l entry) (n : Nat) :
    l'.resolveSteps n p = l.resolveSteps n p := by
  induction n generalizing p with
  | zero => rfl
  | succ n ih =>
    cases hq : p.queue with
    | nil => rw [resolveSteps_nil hq, resolveSteps_nil hq]
    | cons name rest =>
      have hname : name ∈ p.listed .function := by simp [listed, hq]
      obtain ⟨k, hk⟩ := function?_of_has (hp.registered name hname)
      have hk' : l'.function? name = some k := by
        rw [h.function?_eq name (hp.uses .function name hname), hk]
      rw [resolveSteps_cons hq hk, resolveSteps_cons hq hk',
        checkDeps_congr hk (hp.reaches_head hq) h]
      cases hcheck : l.checkDeps k name with
      | error e => rfl
      | ok _ => exact ih (hp.visit hq hk (checkDeps_ok hk hcheck))

/-- Linkers that agree on the names that an entry point uses resolve it alike. They may hold
different numbers of functions; the greater one suffices for both. -/
theorem resolve_congr (h : l.Agrees l' entry) : l'.resolve entry = l.resolve entry := by
  have hhas : l'.has .function entry = l.has .function entry := h.has_eq (.inl ⟨rfl, rfl⟩)
  cases hentry : l.has .function entry with
  | false => rw [resolve_unknown hentry, resolve_unknown (hhas.trans hentry)]
  | true =>
    have hentry' : l'.has .function entry := hhas.trans hentry
    let n := max l.functions.size l'.functions.size
    calc
      l'.resolve entry = l'.resolveSteps n (initial entry) :=
        resolve_eq_resolveSteps hentry' (Nat.le_max_right ..)
      _ = l.resolveSteps n (initial entry) := resolveSteps_congr h (traced_initial hentry) n
      _ = l.resolve entry := (resolve_eq_resolveSteps hentry (Nat.le_max_left ..)).symm

end Linker

end MathKernel
