import Mathlib.Data.List.Forall2
import MathKernel.Proofs.Semantics.Effects

/-!
# Computations that do at least what others do

A computation is below another one if every run of it is one of the other, with the same result and
the same memory after. Code of one shape whose computations are below those of other code runs below
it: the machine takes the same steps in both until the first gets stuck.

## Main definitions

* `Action.Matched`, `Action.Below` — runs of one computation are runs of another
* `Code.Below` — code of the same shape with computations below

## Main results

* `Task.step_matched` — one step of the machine
* `Task.run_below` — runs of the machine
-/

namespace MathKernel

/-! ### Computations -/

namespace Action

variable {α β γ δ : Type} {R : α → β → Prop} {S : γ → δ → Prop}

/-- Every run of `x` is matched by one of `y` that leaves the same memory, with a related
result. -/
def Matched (R : α → β → Prop) (x : Action α) (y : Action β) : Prop :=
  ∀ m a m', x m = some (a, m') → ∃ b, y m = some (b, m') ∧ R a b

/-- Every run of `x` is one of `y`. -/
abbrev Below (x y : Action α) : Prop :=
  Matched Eq x y

theorem Below.run {x y : Action α} (h : x.Below y) {m : Memory} {r : α × Memory}
    (hx : x m = some r) : y m = some r := by
  obtain ⟨_, hy, hab⟩ := h m r.1 r.2 hx
  rw [hy, ← hab]

theorem below_refl (x : Action α) : x.Below x :=
  fun _ a _ h => ⟨a, h, rfl⟩

theorem matched_pure {a : α} {b : β} (h : R a b) : Matched R (pure a) (pure b) := by
  intro m c m' hc
  cases hc
  exact ⟨b, rfl, h⟩

theorem matched_stuck (y : Action β) : Matched R stuck y := by
  intro m a m' h
  cases h

theorem Matched.bind {x : Action α} {y : Action β} {f : α → Action γ} {g : β → Action δ}
    (h : Matched R x y) (hfg : ∀ a b, R a b → Matched S (f a) (g b)) :
    Matched S (x >>= f) (y >>= g) := by
  intro m c m'' hc
  obtain ⟨a, m', ha, hfa⟩ := bind_eq_some.1 hc
  obtain ⟨b, hb, hab⟩ := h m a m' ha
  obtain ⟨d, hd, hcd⟩ := hfg a b hab m' c m'' hfa
  exact ⟨d, bind_eq_some.2 ⟨b, m', hb, hd⟩, hcd⟩

theorem Below.bind {x y : Action α} {f : α → Action γ} {g : α → Action δ} (h : x.Below y)
    (hfg : ∀ a, Matched S (f a) (g a)) : Matched S (x >>= f) (y >>= g) :=
  Matched.bind h fun a _ hab => hab ▸ hfg a

/-- What follows the same computation. -/
theorem matched_bind (x : Action α) {f : α → Action γ} {g : α → Action δ}
    (hfg : ∀ a, Matched S (f a) (g a)) : Matched S (x >>= f) (x >>= g) :=
  (below_refl x).bind hfg

/-- What follows the same computation, at the results it can have. -/
theorem Returns.matched_bind {P : α → Prop} {x : Action α} (h : x.Returns P) {f : α → Action γ}
    {g : α → Action δ} (hfg : ∀ a, P a → Matched S (f a) (g a)) :
    Matched S (x >>= f) (x >>= g) := by
  intro m c m'' hc
  obtain ⟨a, m', ha, hfa⟩ := bind_eq_some.1 hc
  obtain ⟨d, hd, hcd⟩ := hfg a (h m a m' ha) m' c m'' hfa
  exact ⟨d, bind_eq_some.2 ⟨a, m', ha, hd⟩, hcd⟩

theorem matched_ite {x x' : Action γ} {y y' : Action δ} {p : Prop} [Decidable p]
    (h : Matched S x y) (h' : Matched S x' y') :
    Matched S (if p then x else x') (if p then y else y') := by
  split_ifs
  · exact h
  · exact h'

theorem bind_stuck (x : Action α) : (x >>= fun _ => (stuck : Action β)) = stuck := by
  funext m
  change ((x m).bind fun _ => none) = none
  cases x m <;> rfl

end Action

/-! ### Code -/

open MathKernel.Action

mutual

/-- Code of the same shape whose computations are below those of the other. -/
inductive Code.Below : Code → Code → Prop
  | act {run run' : Action Unit} (hrun : run.Below run') : Below (.act run) (.act run')
  | block {items items' : List Code} (hitems : BelowList items items') :
    Below (.block items) (.block items')
  | branch {test test' : Action Bool} {t t' e e' : Code} (htest : test.Below test')
    (ht : Below t t') (he : Below e e') : Below (.branch test t e) (.branch test' t' e')
  | loop {init init' next next' : Action Unit} {test test' : Action Bool} {body body' : Code}
    (hinit : init.Below init') (htest : test.Below test') (hnext : next.Below next')
    (hbody : Below body body') : Below (.loop init test next body) (.loop init' test' next' body')
  | loopLast {test test' : Action Bool} {body body' : Code} (hbody : Below body body')
    (htest : test.Below test') : Below (.loopLast body test) (.loopLast body' test')
  | ret {value value' : Action (Option Scalar)} (hvalue : value.Below value') :
    Below (.ret value) (.ret value')
  | brk : Below .brk .brk
  | cont : Below .cont .cont
  | goto (l : String) : Below (.goto l) (.goto l)
  | label (n : String) {c c' : Code} (hc : Below c c') : Below (.label n c) (.label n c')

/-- Code in order, each below that of the other list. -/
inductive Code.BelowList : List Code → List Code → Prop
  | nil : BelowList [] []
  | cons {c c' : Code} {rest rest' : List Code} (hc : Code.Below c c')
    (hrest : BelowList rest rest') : BelowList (c :: rest) (c' :: rest')

end

/-- Tasks of the same kind whose computations are below those of the other. -/
inductive Task.Below : Task → Task → Prop
  | code {c c' : Code} (hc : c.Below c') : Below (.code c) (.code c')
  | turn {test test' : Action Bool} {next next' : Action Unit} {body body' : Code}
    (htest : test.Below test') (hnext : next.Below next') (hbody : body.Below body') :
    Below (.turn test next body) (.turn test' next' body')
  | turnLast {test test' : Action Bool} {body body' : Code} (hbody : body.Below body')
    (htest : test.Below test') : Below (.turnLast body test) (.turnLast body' test')

namespace Task

/-- Tasks in order, each below that of the other list. -/
abbrev BelowAll : List Task → List Task → Prop :=
  List.Forall₂ Task.Below

variable {tasks tasks' rest rest' : List Task} {body body' : Code}

theorem Below.isLoop_eq {t t' : Task} (h : t.Below t') : t.isLoop = t'.isLoop := by
  cases h <;> rfl

theorem belowAll_code {items items' : List Code} (h : Code.BelowList items items')
    (hrest : BelowAll rest rest') :
    BelowAll (items.map code ++ rest) (items'.map code ++ rest') := by
  induction items generalizing items' with
  | nil =>
    cases h
    exact hrest
  | cons c items ih =>
    cases h with
    | cons hc hitems => exact .cons (.code hc) (ih hitems)

/-- A jump out of the innermost loop drops the same tasks. -/
theorem belowAll_dropWhile (h : BelowAll tasks tasks') :
    BelowAll (tasks.dropWhile (!·.isLoop)) (tasks'.dropWhile (!·.isLoop)) := by
  induction h with
  | nil => exact .nil
  | cons ht hrest ih =>
    rw [List.dropWhile_cons, List.dropWhile_cons, ht.isLoop_eq]
    split
    · exact ih
    · exact .cons ht hrest

theorem rel_orElse {first first' second second' : Option (List Task)}
    (h : Option.Rel BelowAll first first') (h' : Option.Rel BelowAll second second') :
    Option.Rel BelowAll (first.orElse fun _ => second) (first'.orElse fun _ => second') := by
  cases h with
  | some h => exact .some h
  | none => exact h'

mutual

/-- The tasks from a label. -/
theorem fromLabel_below (l : String) (rest rest' : List Task) (hrest : BelowAll rest rest')
    (c c' : Code) (h : c.Below c') :
    Option.Rel BelowAll (fromLabel l rest c) (fromLabel l rest' c') := by
  cases c with
  | act | ret | brk | cont | goto =>
    cases h
    exact .none
  | block items =>
    cases h with
    | block hitems => exact fromLabelList_below l rest rest' hrest items _ hitems
  | branch test t e =>
    cases h with
    | branch _ ht he =>
      exact rel_orElse (fromLabel_below l rest rest' hrest t _ ht)
        (fromLabel_below l rest rest' hrest e _ he)
  | loop init test next body =>
    cases h with
    | loop _ htest hnext hbody =>
      exact fromLabel_below l _ _ (.cons (.turn htest hnext hbody) hrest) body _ hbody
  | loopLast body test =>
    cases h with
    | loopLast hbody htest =>
      exact fromLabel_below l _ _ (.cons (.turnLast hbody htest) hrest) body _ hbody
  | label n c =>
    cases h with
    | label n hc =>
      simp only [fromLabel]
      split
      · exact .some (.cons (.code hc) hrest)
      · exact fromLabel_below l rest rest' hrest c _ hc

/-- The tasks from a label in one of the items. -/
theorem fromLabelList_below (l : String) (rest rest' : List Task) (hrest : BelowAll rest rest')
    (items items' : List Code) (h : Code.BelowList items items') :
    Option.Rel BelowAll (fromLabelList l rest items) (fromLabelList l rest' items') := by
  cases items with
  | nil =>
    cases h
    exact .none
  | cons c items =>
    cases h with
    | cons hc hitems =>
      exact rel_orElse (fromLabel_below l _ _ (belowAll_code hitems hrest) c _ hc)
        (fromLabelList_below l rest rest' hrest items _ hitems)

end

/-- One step of the machine. -/
theorem step_matched (hbody : body.Below body') (h : BelowAll tasks tasks') :
    Matched (Sum.LiftRel Eq BelowAll) (step body tasks) (step body' tasks') := by
  cases h with
  | nil => exact matched_pure (.inl rfl)
  | cons ht hrest =>
    cases ht with
    | code hc =>
      cases hc with
      | act hrun => exact hrun.bind fun _ => matched_pure (.inr hrest)
      | block hitems => exact matched_pure (.inr (belowAll_code hitems hrest))
      | branch htest ht he =>
        exact htest.bind fun _ => matched_ite (matched_pure (.inr (.cons (.code ht) hrest)))
          (matched_pure (.inr (.cons (.code he) hrest)))
      | loop hinit htest hnext hbody =>
        have hturn := Below.turn htest hnext hbody
        exact hinit.bind fun _ => htest.bind fun _ =>
          matched_ite (matched_pure (.inr (.cons (.code hbody) (.cons hturn hrest))))
            (matched_pure (.inr hrest))
      | loopLast hbody htest =>
        exact matched_pure (.inr (.cons (.code hbody) (.cons (.turnLast hbody htest) hrest)))
      | ret hvalue => exact hvalue.bind fun _ => matched_pure (.inl rfl)
      | brk =>
        exact matched_pure (.inr (List.forall₂_drop 1 (belowAll_dropWhile hrest)))
      | cont => exact matched_pure (.inr (belowAll_dropWhile hrest))
      | goto l =>
        -- Both bodies have the label in the same place, or neither has it.
        have hlabel := fromLabel_below l [] [] .nil body body' hbody
        simp only [step]
        generalize fromLabel l [] body = from?, fromLabel l [] body' = from?' at hlabel
        cases hlabel with
        | some htasks => exact matched_pure (.inr htasks)
        | none => exact matched_stuck _
      | label n hc => exact matched_pure (.inr (.cons (.code hc) hrest))
    | turn htest hnext hbody =>
      have hturn := Below.turn htest hnext hbody
      exact hnext.bind fun _ => htest.bind fun _ =>
        matched_ite (matched_pure (.inr (.cons (.code hbody) (.cons hturn hrest))))
          (matched_pure (.inr hrest))
    | turnLast hbody htest =>
      have hturn := Below.turnLast hbody htest
      exact htest.bind fun _ =>
        matched_ite (matched_pure (.inr (.cons (.code hbody) (.cons hturn hrest))))
          (matched_pure (.inr hrest))

/-- Runs of the machine. -/
theorem run_below (hbody : body.Below body') (fuel : Nat) (h : BelowAll tasks tasks') :
    (run body fuel tasks).Below (run body' fuel tasks') := by
  induction fuel generalizing tasks tasks' with
  | zero => exact matched_stuck _
  | succ fuel ih =>
    refine (step_matched hbody h).bind fun r r' hr => ?_
    cases hr with
    | inl hv => exact matched_pure hv
    | inr htasks => exact ih htasks

end Task

end MathKernel
