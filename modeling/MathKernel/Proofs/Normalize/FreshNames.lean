import Mathlib.Data.Finset.Card
import Mathlib.Data.List.Range
import MathKernel.Proofs.Normalize.Recursion
import MathKernel.Proofs.Normalize.StaticBindings

/-!
# Searches for fresh names

Promoted variables and copied functions get names that are not taken. Such a name is searched for by
trying one variant after another until a free one is met. The variants are different from each
other, so the search takes at most as many rounds as there are taken names. What it finds is taken
from then on, so names that are asked for one after another are all different.

## Main definitions

* `NameSearch.EndsIn` — the loop that tries the variants, with its number of rounds
* `NameRequest` — what a name is asked for, a variable to promote or a function to copy
* `NameRequest.serve` — the answer, which is added to the taken names

## Main results

* `NameSearch.EndsIn.unique` — a search ends in one way
* `NameSearch.start_endsIn_iff` — a search ends in the fresh name, with a bound on its rounds
* `promoteGlobals_serves`, `FuncDef.promoteStatics_serves`, `foldl_addCopy_serves` — the passes ask
  for all their new names in this way
* `NameRequest.serve_isFresh` — the answers to requests are fresh
-/

namespace MathKernel

/-! ### The search for a free variant -/

/-- A search for a free name: the name to try, and the number that goes into the one after it. -/
structure NameSearch where
  candidate : String
  next : Nat
  deriving DecidableEq, Repr

namespace NameSearch

/-- The search begins with the name itself, and numbers begin with 2. -/
def start (stem : String) : NameSearch :=
  ⟨stem, 2⟩

/-- Turn to the next name. -/
def advance (separator stem : String) (s : NameSearch) : NameSearch :=
  ⟨stem ++ separator ++ toString s.next, s.next + 1⟩

/-- The search goes on while the name is taken, and ends after some rounds. -/
inductive EndsIn (separator stem : String) (taken : List String) :
    NameSearch → Nat → NameSearch → Prop
  | free {s : NameSearch} (h : s.candidate ∉ taken) : EndsIn separator stem taken s 0 s
  | taken {s t : NameSearch} {rounds : Nat} (h : s.candidate ∈ taken)
      (hrest : EndsIn separator stem taken (s.advance separator stem) rounds t) :
      EndsIn separator stem taken s (rounds + 1) t

variable {separator stem : String} {taken : List String}

theorem EndsIn.unique {s t t' : NameSearch} {rounds rounds' : Nat}
    (h : EndsIn separator stem taken s rounds t) (h' : EndsIn separator stem taken s rounds' t') :
    rounds = rounds' ∧ t = t' := by
  induction h generalizing rounds' with
  | free hfree =>
    cases h' with
    | free => exact ⟨rfl, rfl⟩
    | taken htaken => exact absurd htaken hfree
  | taken htaken _ ih =>
    cases h' with
    | free hfree => exact absurd htaken hfree
    | taken _ hrest =>
      obtain ⟨rfl, rfl⟩ := ih hrest
      exact ⟨rfl, rfl⟩

/-- The search at the `n`-th variant. -/
def atVariant (separator stem : String) (n : Nat) : NameSearch :=
  ⟨nameVariant separator stem n, n + 2⟩

theorem advance_atVariant (n : Nat) :
    (atVariant separator stem n).advance separator stem = atVariant separator stem (n + 1) := by
  simp [advance, atVariant, nameVariant]

/-- The search passes the variants that are taken. -/
theorem atVariant_endsIn {last : Nat} (htaken : ∀ m < last, nameVariant separator stem m ∈ taken)
    (hfree : nameVariant separator stem last ∉ taken) {n rounds : Nat} (hlast : n + rounds = last) :
    EndsIn separator stem taken (atVariant separator stem n) rounds
      (atVariant separator stem last) := by
  induction rounds generalizing n with
  | zero =>
    obtain rfl : n = last := hlast
    exact .free hfree
  | succ rounds ih =>
    refine .taken (htaken n (by omega)) ?_
    rw [advance_atVariant]
    exact ih (by omega)

end NameSearch

section FreshName

variable (separator : String) (taken : List String) (stem : String)

/-- Variants that are all taken are no more than the taken names. -/
theorem le_card_of_forall_nameVariant {n : Nat}
    (h : ∀ m < n, nameVariant separator stem m ∈ taken) : n ≤ taken.toFinset.card := by
  have hinjective := nameVariant_injective separator stem
  rw [← Finset.card_range n, ← Finset.card_image_of_injective _ hinjective]
  refine Finset.card_le_card (Finset.image_subset_iff.2 fun m hm => ?_)
  exact List.mem_toFinset.2 (h m (Finset.mem_range.1 hm))

/-- The fresh name is the first variant that is free. -/
theorem exists_first_nameVariant :
    ∃ n, freshName separator taken stem = nameVariant separator stem n ∧
      ∀ m < n, nameVariant separator stem m ∈ taken := by
  have hfresh := freshName_notMem separator taken stem
  unfold freshName at hfresh ⊢
  rw [List.find?_map] at hfresh ⊢
  cases hfind : (List.range (taken.length + 1)).find?
      ((fun name => !taken.contains name) ∘ nameVariant separator stem) with
  | none => exact ⟨0, rfl, fun m hm => absurd hm m.not_lt_zero⟩
  | some n =>
    refine ⟨n, rfl, fun m hm => ?_⟩
    simpa using (List.find?_range_eq_some.1 hfind).2.2 m hm

variable {separator taken stem} in
/-- A name that is free is not numbered. -/
theorem freshName_of_notMem (h : stem ∉ taken) : freshName separator taken stem = stem := by
  obtain ⟨n, hn, htaken⟩ := exists_first_nameVariant separator taken stem
  rcases Nat.eq_zero_or_pos n with rfl | hpos
  · exact hn
  · exact absurd (htaken 0 hpos) h

/-- A search ends in the fresh name, and only there. It takes at most one round for each taken name,
so its number is at most two more than they are. -/
theorem NameSearch.start_endsIn_iff :
    ∃ rounds ≤ taken.toFinset.card, ∀ k t, EndsIn separator stem taken (start stem) k t ↔
      k = rounds ∧ t = ⟨freshName separator taken stem, rounds + 2⟩ := by
  obtain ⟨n, hn, htaken⟩ := exists_first_nameVariant separator taken stem
  have hfree := freshName_notMem separator taken stem
  rw [hn] at hfree ⊢
  have hends : EndsIn separator stem taken (start stem) n (atVariant separator stem n) :=
    atVariant_endsIn htaken hfree n.zero_add
  refine ⟨n, le_card_of_forall_nameVariant separator taken stem htaken, fun k t => ⟨?_, ?_⟩⟩
  · exact fun h => h.unique hends
  · rintro ⟨rfl, rfl⟩
    exact hends

end FreshName

/-! ### Requests for names -/

/-- What a new name is asked for. -/
inductive NameRequest where
  /-- A static variable, at file level or of a function. -/
  | promote (unit : String) (function : Option String) (name : String)
  /-- A copy of a function. -/
  | copy (callee : String)
  deriving DecidableEq, Repr

namespace NameRequest

variable (taken : List String)

/-- The name that is given if it is free. -/
def plain : NameRequest → String
  | promote unit _ name => unit ++ "_" ++ name
  | copy callee => callee ++ unrolledEnding

/-- The name whose variants are tried. -/
def stem : NameRequest → String
  | r@(promote unit (some function) name) =>
    if taken.contains r.plain then unit ++ "_" ++ function ++ "_" ++ name else r.plain
  | r => r.plain

/-- What stands before the number of a variant. -/
def separator : NameRequest → String
  | promote .. => "_"
  | copy _ => ""

/-- The name that is given. -/
def answer : NameRequest → String
  | promote unit function name => promotedName taken unit function name
  | copy callee => freshName "" taken (callee ++ unrolledEnding)

/-- Give a name, which is taken from then on. -/
def serve (r : NameRequest) : StateM (List String) String := do
  let new := r.answer (← get)
  modify (new :: ·)
  return new

variable {taken}

theorem answer_eq_freshName (r : NameRequest) :
    r.answer taken = freshName r.separator taken (r.stem taken) := by
  rcases r with ⟨unit, _ | function, name⟩ | callee <;> rfl

theorem answer_notMem (r : NameRequest) : r.answer taken ∉ taken := by
  rw [answer_eq_freshName]
  exact freshName_notMem _ _ _

theorem stem_of_notMem {r : NameRequest} (h : r.plain ∉ taken) : r.stem taken = r.plain := by
  rcases r with ⟨unit, _ | function, name⟩ | callee
  · rfl
  · exact if_neg (by simpa using h)
  · rfl

theorem answer_of_notMem {r : NameRequest} (h : r.plain ∉ taken) : r.answer taken = r.plain := by
  rw [answer_eq_freshName, stem_of_notMem h, freshName_of_notMem h]

theorem serve_run (r : NameRequest) :
    r.serve.run taken = (r.answer taken, r.answer taken :: taken) :=
  rfl

theorem mapM_serve_run_cons (r : NameRequest) (rest : List NameRequest) :
    ((r :: rest).mapM serve).run taken =
      let new := r.answer taken
      let (names, last) := (rest.mapM serve).run (new :: taken)
      (new :: names, last) := by
  rw [List.mapM_cons]
  rfl

/-- Names that are given one after another are new and different. -/
theorem mapM_serve_isFresh (requests : List NameRequest) (taken : List String) :
    let names := ((requests.mapM serve).run taken).1
    names.length = requests.length ∧ names.Nodup ∧ names.Disjoint taken := by
  induction requests generalizing taken with
  | nil => exact ⟨rfl, List.nodup_nil, List.disjoint_nil_left _⟩
  | cons r rest ih =>
    obtain ⟨hlength, hnodup, hdisjoint⟩ := ih (r.answer taken :: taken)
    rw [List.disjoint_cons_right] at hdisjoint
    rw [mapM_serve_run_cons]
    refine ⟨congrArg (· + 1) hlength, List.nodup_cons.2 ⟨hdisjoint.1, hnodup⟩, ?_⟩
    exact List.disjoint_cons_left.2 ⟨answer_notMem r, hdisjoint.2⟩

theorem mapM_serve_run_append {requests others : List NameRequest} {names last : List String}
    (h : (requests.mapM serve).run taken = (names, last)) :
    ((requests ++ others).mapM serve).run taken =
      (names ++ ((others.mapM serve).run last).1, ((others.mapM serve).run last).2) := by
  rw [List.mapM_append, StateT.run_bind, h]
  rfl

end NameRequest

/-! ### The names that the passes ask for -/

open NameRequest

/-- From one promotion to another the new names are the answers to the requests. -/
def Promotion.Serves (p : Promotion) (requests : List NameRequest) (q : Promotion) : Prop :=
  ∃ names, (requests.mapM serve).run p.taken = (names, q.taken) ∧
    q.promoted.map Prod.fst = names.reverse ++ p.promoted.map Prod.fst

section Promotion

variable {p q r : Promotion} {requests others : List NameRequest}

theorem Promotion.Serves.nil (p : Promotion) : p.Serves [] p :=
  ⟨[], rfl, rfl⟩

theorem Promotion.Serves.append (h : p.Serves requests q) (h' : q.Serves others r) :
    p.Serves (requests ++ others) r := by
  obtain ⟨names, hnames, hpromoted⟩ := h
  obtain ⟨names', hnames', hpromoted'⟩ := h'
  refine ⟨names ++ names', ?_, ?_⟩
  · rw [mapM_serve_run_append hnames, hnames']
  · rw [hpromoted', hpromoted, List.reverse_append, List.append_assoc]

/-- One variable is promoted. -/
theorem Promotion.Serves.singleton (p : Promotion) (unit : String) (function : Option String)
    (old : String) {renames : Renames} :
    let new := promotedName p.taken unit function old
    p.Serves [.promote unit function old] ⟨new :: p.taken, renames, (new, old) :: p.promoted⟩ :=
  ⟨[promotedName p.taken unit function old], rfl, rfl⟩

theorem Item.promoteGlobal_serves (unit : String) (p : Promotion) (item : Item) :
    p.Serves (item.staticName?.toList.map (.promote unit none))
      (item.promoteGlobal unit p).2.1 := by
  cases item with
  | decl d =>
    simp only [staticName?, promoteGlobal]
    split
    · cases d.name with
      | none => exact .nil p
      | some old => exact .singleton p unit none old
    · split
      · exact .nil p
      · exact .nil p
  | func f =>
    simp only [promoteGlobal]
    split
    · exact .nil p
    · exact .nil p

/-- The variables at file level are promoted under the names that are asked for in order. -/
theorem promoteGlobals_serves (unit : String) (p : Promotion) (items : List Item) :
    p.Serves ((items.filterMap Item.staticName?).map (.promote unit none))
      (promoteGlobals unit p items).2.1 := by
  induction items generalizing p with
  | nil => exact .nil p
  | cons item rest ih =>
    have hstep := (item.promoteGlobal_serves unit p).append (ih (item.promoteGlobal unit p).2.1)
    cases hname : item.staticName? with
    | none =>
      rw [hname] at hstep
      rwa [List.filterMap_cons_none hname]
    | some old =>
      rw [hname] at hstep
      rwa [List.filterMap_cons_some hname]

/-- So are the variables of a function. -/
theorem hoistStatics_serves (unit function : String) (p : Promotion) (statics : List Decl) :
    p.Serves ((statics.filterMap Decl.name).map (.promote unit (some function)))
      (hoistStatics unit function p statics).2.1 := by
  induction statics generalizing p with
  | nil => exact .nil p
  | cons d rest ih =>
    unfold hoistStatics
    cases hname : d.name with
    | none =>
      rw [List.filterMap_cons_none hname]
      exact ih p
    | some old =>
      rw [List.filterMap_cons_some hname, List.map_cons]
      exact (Promotion.Serves.singleton p unit (some function) old).append (ih _)

/-- The names of a function's variables are taken for the functions after it. -/
theorem FuncDef.promoteStatics_serves {unit : String} {f : FuncDef} {items : List Item}
    {tally : Tally} (h : f.promoteStatics unit p = .ok (items, q, tally)) :
    p.Serves ((f.body.statics.filterMap Decl.name).map (.promote unit (some f.name))) q := by
  have hserves := hoistStatics_serves unit f.name p f.body.statics
  simp only [FuncDef.promoteStatics, Block.mapBlocksM_takeStatics] at h
  split at h
  · cases h
  · obtain ⟨-, rfl, -⟩ : _ ∧ _ = q ∧ _ := by simpa using h
    exact hserves

end Promotion

/-- The names of the copies are the answers to requests. -/
def Unrolling.IsServed (taken : List String) (acc : Unrolling) : Prop :=
  ((acc.copies.map fun entry => NameRequest.copy entry.1).mapM serve).run taken =
    (acc.copies.map fun entry => entry.2.name, acc.taken)

theorem Unrolling.IsServed.addCopy {taken : List String} {acc : Unrolling}
    (h : acc.IsServed taken) (u : SourceUnit) (g : CallGraph) (callee : String) :
    (acc.addCopy u g callee).IsServed taken := by
  unfold Unrolling.addCopy
  split
  · exact h
  · exact h
  · unfold IsServed
    rw [List.map_append, mapM_serve_run_append h, List.map_append]
    rfl

theorem foldl_addCopy_serves (u : SourceUnit) (g : CallGraph) (taken callees : List String) :
    (callees.foldl (Unrolling.addCopy u g) ⟨taken, [], 0⟩).IsServed taken :=
  List.foldlRecOn callees _ rfl fun _ h callee _ => h.addCopy u g callee

/-- The search for a name ends in a free name after at most one round for each taken name, the plain
name if it is free, and nothing else is taken from then on. So names that are asked for one after
another are different from each other and from the names that were taken at first. -/
theorem NameRequest.serve_isFresh (taken : List String) :
    (∀ r : NameRequest,
      let (new, last) := r.serve.run taken
      (∃ rounds ≤ taken.toFinset.card, ∀ k t,
        NameSearch.EndsIn r.separator (r.stem taken) taken (.start (r.stem taken)) k t ↔
          k = rounds ∧ t = ⟨new, rounds + 2⟩) ∧
      new ∉ taken ∧ (∀ x, x ∈ last ↔ x = new ∨ x ∈ taken) ∧ (r.plain ∉ taken → new = r.plain)) ∧
    ∀ requests : List NameRequest,
      let names := ((requests.mapM serve).run taken).1
      names.length = requests.length ∧ names.Nodup ∧ ∀ x ∈ names, x ∉ taken := by
  refine ⟨fun r => ?_, fun requests => ?_⟩
  · rw [serve_run]
    refine ⟨?_, answer_notMem r, fun x => List.mem_cons, answer_of_notMem⟩
    rw [answer_eq_freshName]
    exact NameSearch.start_endsIn_iff r.separator taken (r.stem taken)
  · obtain ⟨hlength, hnodup, hdisjoint⟩ := mapM_serve_isFresh requests taken
    exact ⟨hlength, hnodup, fun x hx hmem => hdisjoint hx hmem⟩

/-- The function's name tells variables of one name apart, and numbers do so after that. -/
example :
    let x : NameRequest := .promote "unit" (some "f") "x"
    (([x, x, x, .copy "f"].mapM NameRequest.serve).run ["f_unrolled"]).1 =
      ["unit_x", "unit_f_x", "unit_f_x_2", "f_unrolled2"] := by
  decide +kernel

end MathKernel
