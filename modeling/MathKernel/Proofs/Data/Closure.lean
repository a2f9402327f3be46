import Mathlib.Data.List.Nodup
import Mathlib.Data.List.Perm.Subperm
import Mathlib.Logic.Relation
import MathKernel.Data.Closure

/-!
# Closure finds what names lead to

Repeating the step as often as there are names reaches a list that the step leaves alone: until
then each repetition adds a name. So the closure holds exactly what can be reached.

Both this and the walk over calls list the first mentions of names only; what the first part of
the module says about first mentions serves both.

## Main results

* `closed_closure` — the closure is closed under the step
* `mem_closure_iff` — it holds what the names lead to, and nothing else
-/

namespace MathKernel

/-! ### First mentions -/

section FirstMentions

variable {α : Type} [BEq α] [LawfulBEq α]

theorem nodup_eraseDups (items : List α) : items.eraseDups.Nodup := by
  cases items with
  | nil => exact .nil
  | cons x rest =>
    have hx : x ∉ (rest.filter fun y => !y == x).eraseDups := by
      simp [List.mem_eraseDups]
    rw [List.eraseDups_cons]
    exact List.nodup_cons.2 ⟨hx, nodup_eraseDups _⟩
termination_by items.length
decreasing_by
  have := List.length_filter_le (fun y => !y == x) rest
  rw [List.length_cons]
  omega

theorem eraseDups_eq_self {items : List α} (h : items.Nodup) : items.eraseDups = items := by
  induction items with
  | nil => rfl
  | cons x rest ih =>
    obtain ⟨hx, hrest⟩ := List.nodup_cons.1 h
    have hfilter : (rest.filter fun y => !y == x) = rest := by
      refine List.filter_eq_self.2 fun y hy => ?_
      have : y ≠ x := fun e => hx (e ▸ hy)
      simpa using this
    rw [List.eraseDups_cons, hfilter, ih hrest]

/-- Appending distinct items adds those that were not mentioned before. -/
theorem eraseDups_append_of_nodup {items more : List α} (h : more.Nodup) :
    (items ++ more).eraseDups = items.eraseDups ++ more.filter (!items.eraseDups.contains ·) := by
  rw [List.eraseDups_append, List.removeAll, eraseDups_eq_self (h.filter _)]
  congr 1
  refine List.filter_congr fun x _ => ?_
  simp [List.mem_eraseDups]

/-- Of two first mentions, the earlier one stands in every initial part that holds the later. -/
theorem mem_of_sublist_eraseDups {items more : List α} {x y : α}
    (h : [x, y].Sublist (items ++ more).eraseDups) (hy : y ∈ items) : x ∈ items := by
  rw [List.eraseDups_append] at h
  have hlate : y ∉ (more.removeAll items).eraseDups := by
    simp [List.mem_eraseDups, List.removeAll, hy]
  obtain ⟨early, late, hsplit, hearly, hlater⟩ := List.sublist_append_iff.1 h
  cases early with
  | nil =>
    -- Both would be first mentioned later, but the second one is not.
    simp only [List.nil_append] at hsplit
    subst hsplit
    exact absurd (hlater.subset (by simp)) hlate
  | cons z rest =>
    obtain ⟨rfl, -⟩ := List.cons.inj hsplit
    exact List.mem_eraseDups.1 (hearly.subset (by simp))

end FirstMentions

/-! ### Names and their successors -/

variable {next : String → List String} {names found : List String} {n : Nat} {x : String}

/-- A list of names holds all their successors. -/
def ClosedUnder (next : String → List String) (found : List String) : Prop :=
  ∀ a ∈ found, next a ⊆ found

theorem mem_closureStep : x ∈ closureStep next found ↔ x ∈ found ∨ ∃ a ∈ found, x ∈ next a := by
  simp [closureStep, List.mem_eraseDups]

theorem subset_closureStep (next : String → List String) (found : List String) :
    found ⊆ closureStep next found :=
  fun _ hx => mem_closureStep.2 (.inl hx)

/-- The step leaves a closed list as it is. -/
theorem ClosedUnder.closureStep_eq (h : ClosedUnder next found) (hnodup : found.Nodup) :
    closureStep next found = found := by
  have hnew : (found.flatMap next).removeAll found = [] := by
    refine List.filter_eq_nil_iff.2 fun y hy => ?_
    obtain ⟨a, ha, hy⟩ := List.mem_flatMap.1 hy
    simpa using h a ha hy
  rw [closureStep, List.eraseDups_append, hnew, eraseDups_eq_self hnodup]
  simp

theorem ClosedUnder.closure_eq (h : ClosedUnder next found) (hnodup : found.Nodup) (n : Nat) :
    closure next n found = found := by
  induction n with
  | zero => rfl
  | succ n ih => rw [closure, h.closureStep_eq hnodup, ih]

/-- A list that is not closed grows. -/
theorem length_lt_closureStep (hnodup : found.Nodup) (h : ¬ClosedUnder next found) :
    found.length < (closureStep next found).length := by
  simp only [ClosedUnder, not_forall, List.subset_def] at h
  obtain ⟨a, ha, y, hy, hnew⟩ := h
  -- A missing successor and the names found are distinct, and all are there after the step.
  have hsub : y :: found ⊆ closureStep next found := by
    refine List.cons_subset.2 ⟨mem_closureStep.2 (.inr ⟨a, ha, hy⟩), subset_closureStep next found⟩
  exact (List.subperm_of_subset (List.nodup_cons.2 ⟨hnew, hnodup⟩) hsub).length_le

theorem closureStep_subset (hnext : ∀ a ∈ names, next a ⊆ names) (h : found ⊆ names) :
    closureStep next found ⊆ names := by
  intro x hx
  rcases mem_closureStep.1 hx with hx | ⟨a, ha, hx⟩
  · exact h hx
  · exact hnext a (h ha) hx

/-- Distinct names that are as many as all names are all names. -/
theorem closedUnder_of_length_le (hnext : ∀ a ∈ names, next a ⊆ names) (hnodup : found.Nodup)
    (h : found ⊆ names) (hlen : names.length ≤ found.length) : ClosedUnder next found := by
  have hall : found.Perm names := (List.subperm_of_subset hnodup h).perm_of_length_le hlen
  exact fun a ha => List.Subset.trans (hnext a (h ha)) hall.symm.subset

/-- The induction is on the steps left: a step adds a name or has nothing to add. -/
theorem closed_closure_of_nodup (hnext : ∀ a ∈ names, next a ⊆ names) (hnodup : found.Nodup)
    (h : found ⊆ names) (hn : names.length ≤ n + found.length) :
    ClosedUnder next (closure next n found) := by
  induction n generalizing found with
  | zero =>
    rw [closure]
    exact closedUnder_of_length_le hnext hnodup h (by omega)
  | succ n ih =>
    by_cases hclosed : ClosedUnder next found
    · rwa [hclosed.closure_eq hnodup]
    · have := length_lt_closureStep hnodup hclosed
      exact ih (nodup_eraseDups _) (closureStep_subset hnext h) (by omega)

/-- As many steps as there are names suffice, from any of the names. -/
theorem closed_closure (hnext : ∀ a ∈ names, next a ⊆ names) (h : found ⊆ names) :
    ClosedUnder next (closure next names.length found) := by
  cases found with
  | nil =>
    have hnil : ClosedUnder next [] := by simp [ClosedUnder]
    rwa [hnil.closure_eq .nil]
  | cons x rest =>
    -- The given names may repeat; after one step they do not, and one of them is found.
    have hx : x ∈ names := h (by simp)
    obtain ⟨n, hn⟩ : ∃ n, names.length = n + 1 :=
      Nat.exists_eq_succ_of_ne_zero (Nat.ne_of_gt (List.length_pos_of_mem hx))
    have hfound : 0 < (closureStep next (x :: rest)).length :=
      List.length_pos_of_mem (subset_closureStep next _ (List.mem_cons_self ..))
    rw [hn, closure]
    exact closed_closure_of_nodup hnext (nodup_eraseDups _) (closureStep_subset hnext h) (by omega)

theorem subset_closure (next : String → List String) (n : Nat) (found : List String) :
    found ⊆ closure next n found := by
  induction n generalizing found with
  | zero => exact fun _ hx => hx
  | succ n ih => exact List.Subset.trans (subset_closureStep next found) (ih _)

/-- What the closure holds can be reached. -/
theorem reached_of_mem_closure (h : x ∈ closure next n found) :
    ∃ a ∈ found, Relation.ReflTransGen (fun a b => b ∈ next a) a x := by
  induction n generalizing found with
  | zero => exact ⟨x, h, .refl⟩
  | succ n ih =>
    obtain ⟨b, hb, hx⟩ := ih h
    rcases mem_closureStep.1 hb with hb | ⟨a, ha, hb⟩
    · exact ⟨b, hb, hx⟩
    · exact ⟨a, ha, .head hb hx⟩

theorem mem_closure_iff (hnext : ∀ a ∈ names, next a ⊆ names) (h : found ⊆ names) :
    x ∈ closure next names.length found ↔
      ∃ a ∈ found, Relation.ReflTransGen (fun a b => b ∈ next a) a x := by
  refine ⟨reached_of_mem_closure, ?_⟩
  rintro ⟨a, ha, hx⟩
  induction hx with
  | refl => exact subset_closure next _ found ha
  | tail _ hstep ih =>
    -- The closure holds what comes before the last step, so it holds the successor too.
    exact closed_closure hnext h _ ih hstep

end MathKernel
