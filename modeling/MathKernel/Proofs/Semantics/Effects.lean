import Mathlib.Order.Defs.Unbundled
import MathKernel.Proofs.Semantics.Typing
import MathKernel.Proofs.Syntax.Subexpressions

/-!
# Results and effects of computations

A computation on memory is described by the results that it can have, and by how the memory after it
is related to the memory before. It is quiet if it leaves the memory alone. What an expression does
to memory is what its writes and its calls do; expressions that write nothing and call only quiet
functions are quiet, so that they can be evaluated twice in place of once.

## Main definitions

* `Action.Returns` — every result has a property
* `Action.Within` — the memory before and the memory after are related
* `Action.Quiet` — the memory is left alone
* `Expr.IsWithin` — the places that an expression writes to and the functions that it calls
* `Calls.QuietOn` — calls of the named functions are quiet

## Main results

* `Expr.eval_within` — expressions whose writes and calls keep to a relation
* `Action.Quiet.bind_twice` — a quiet computation done twice
* `Expr.eval_quiet`, `Expr.evalCell_quiet` — expressions without side effects are quiet
-/

namespace MathKernel

/-- The memories agree on the cells that are kept at none of the given places. -/
def Memory.AgreeOff (own : Place → Prop) (m m' : Memory) : Prop :=
  ∀ c, ¬own c.place → m' c = m c

instance (own : Place → Prop) : IsPreorder Memory (Memory.AgreeOff own) where
  refl _ _ _ := rfl
  trans _ _ _ h h' c hc := (h' c hc).trans (h c hc)

theorem Memory.eq_of_agreeOff {m m' : Memory} (h : Memory.AgreeOff (fun _ => False) m m') :
    m = m' :=
  funext fun c => (h c not_false).symm

namespace Action

variable {α β : Type} {x : Action α} {f g : α → Action β} {P : α → Prop} {Q : β → Prop}

theorem bind_eq_some {m : Memory} {r : β × Memory} :
    (x >>= f) m = some r ↔ ∃ a m', x m = some (a, m') ∧ f a m' = some r := by
  change ((x m).bind fun (a, m') => f a m') = some r ↔ _
  simp [Option.bind_eq_some_iff]

/-- Every result of the computation has the property. -/
def Returns (P : α → Prop) (x : Action α) : Prop :=
  ∀ m a m', x m = some (a, m') → P a

theorem returns_pure {a : α} (h : P a) : Returns P (pure a) := by
  intro m b m' hb
  cases hb
  exact h

theorem returns_stuck : Returns P stuck := by
  intro m a m' h
  cases h

theorem returns_ofOption {o : Option α} (h : ∀ a, o = some a → P a) :
    Returns P (ofOption o) := by
  intro m a m' ha
  obtain ⟨b, hb, heq⟩ := Option.map_eq_some_iff.1 ha
  cases heq
  exact h a hb

theorem returns_read (c : Cell) : Returns (·.type = c.type) (read c) := by
  intro m v m' h
  obtain ⟨w, -, heq⟩ := Option.map_eq_some_iff.1 h
  cases heq
  exact w.2

theorem Returns.bind (h : Returns P x) (hf : ∀ a, P a → Returns Q (f a)) :
    Returns Q (x >>= f) := by
  intro m b m'' hb
  obtain ⟨a, m', ha, hfa⟩ := bind_eq_some.1 hb
  exact hf a (h m a m' ha) m' b m'' hfa

theorem returns_bind (hf : ∀ a, Returns Q (f a)) : Returns Q (x >>= f) := by
  intro m b m'' hb
  obtain ⟨a, m', -, hfa⟩ := bind_eq_some.1 hb
  exact hf a m' b m'' hfa

theorem Returns.imp {P' : α → Prop} (h : Returns P x) (himp : ∀ a, P a → P' a) : Returns P' x :=
  fun m a m' ha => himp a (h m a m' ha)

/-- What follows a computation matters only at the results it can have. -/
theorem Returns.bind_congr (h : Returns P x) (hfg : ∀ a, P a → f a = g a) :
    x >>= f = x >>= g := by
  funext m
  change ((x m).bind fun (a, m') => f a m') = (x m).bind fun (a, m') => g a m'
  cases hx : x m with
  | none => rfl
  | some r => exact congrFun (hfg r.1 (h m r.1 r.2 hx)) r.2

/-- The memory is left alone. -/
def Quiet (x : Action α) : Prop :=
  ∀ m a m', x m = some (a, m') → m' = m

theorem quiet_pure (a : α) : Quiet (pure a) := by
  intro m b m' h
  cases h
  rfl

theorem quiet_stuck : Quiet (stuck : Action α) := by
  intro m a m' h
  cases h

theorem quiet_ofOption (o : Option α) : Quiet (ofOption o) := by
  intro m a m' h
  obtain ⟨b, -, heq⟩ := Option.map_eq_some_iff.1 h
  cases heq
  rfl

theorem quiet_read (c : Cell) : Quiet (read c) := by
  intro m v m' h
  obtain ⟨w, -, heq⟩ := Option.map_eq_some_iff.1 h
  cases heq
  rfl

/-- Every run takes the memory to a related one. -/
def Within (R : Memory → Memory → Prop) (x : Action α) : Prop :=
  ∀ m a m', x m = some (a, m') → R m m'

theorem within_eq_iff : x.Within Eq ↔ x.Quiet := by
  unfold Within Quiet
  simp only [eq_comm]

section Within

variable {R : Memory → Memory → Prop}

theorem Within.imp {R' : Memory → Memory → Prop} (h : x.Within R)
    (himp : ∀ m m', R m m' → R' m m') : x.Within R' :=
  fun m a m' hx => himp m m' (h m a m' hx)

theorem Quiet.within [Std.Refl R] (h : x.Quiet) : x.Within R := by
  intro m a m' hx
  obtain rfl := h m a m' hx
  exact refl_of R m'

theorem Within.bind [IsTrans Memory R] (hx : x.Within R) (hf : ∀ a, (f a).Within R) :
    (x >>= f).Within R := by
  intro m b m'' h
  obtain ⟨a, m', ha, hb⟩ := bind_eq_some.1 h
  exact trans_of R (hx m a m' ha) (hf a m' b m'' hb)

/-- What follows a computation matters only at the results it can have. -/
theorem Returns.bind_within [IsTrans Memory R] (h : x.Returns P) (hx : x.Within R)
    (hf : ∀ a, P a → (f a).Within R) : (x >>= f).Within R := by
  intro m b m'' hb
  obtain ⟨a, m', ha, hfa⟩ := bind_eq_some.1 hb
  exact trans_of R (hx m a m' ha) (hf a (h m a m' ha) m' b m'' hfa)

section Writes

variable {own : Place → Prop}

/-- Writing a cell changes no other cell. -/
theorem within_write {c : Cell} (hc : own c.place) (v : Scalar) :
    (write c v).Within (Memory.AgreeOff own) := by
  intro m u m' h c' hc'
  have hne : c' ≠ c := fun heq => hc' (heq ▸ hc)
  unfold write at h
  split at h
  · cases h
    exact dif_neg hne
  · cases h

theorem within_erase {place : Place} (h : own place) :
    (erase place).Within (Memory.AgreeOff own) := by
  intro m u m' herase c hc
  cases herase
  have hne : c.place ≠ place := fun heq => hc (heq ▸ h)
  exact if_neg hne

theorem within_zero {place : Place} (h : own place) :
    (zero place).Within (Memory.AgreeOff own) := by
  intro m u m' hzero c hc
  cases hzero
  have hne : c.place ≠ place := fun heq => hc (heq ▸ h)
  exact if_neg hne

theorem within_store [IsPreorder Memory R] (hown : ∀ m m', Memory.AgreeOff own m m' → R m m')
    (rules : Rules) {c : Cell} (hc : own c.place) (v : Scalar) : (store rules c v).Within R := by
  unfold store
  exact (quiet_ofOption _).within.bind fun w =>
    ((within_write hc w).imp hown).bind fun _ => (quiet_pure _).within

end Writes

end Within

/-- A quiet computation has the same result when it is done a second time. -/
theorem Quiet.bind_twice (hx : Quiet x) (k : α → α → Action β) :
    (x >>= fun a => x >>= fun b => k a b) = x >>= fun a => k a a := by
  funext m
  change ((x m).bind fun (a, m') => (x m').bind fun (b, m'') => k a b m'') =
    (x m).bind fun (a, m') => k a a m'
  cases h : x m with
  | none => rfl
  | some r =>
    have hm : r.2 = m := hx m r.1 r.2 h
    change (x r.2).bind _ = k r.1 r.1 r.2
    rw [hm, h]
    exact congrArg (k r.1 r.1) hm

end Action

/-! ### Expressions -/

/-- Calls of the functions with the given names leave the memory alone. -/
def Calls.QuietOn (names : List String) (calls : Calls) : Prop :=
  ∀ f ∈ names, ∀ args, (calls f args).Quiet

/-- The variable or array whose cells an assigned expression names. -/
def Context.target? (ctx : Context) : Expr → Option Binding
  | .id name _ => ctx.binding? name
  | .index a i _ => (ctx.array? a).orElse fun _ => ctx.array? i
  | _ => none

/-- What the expression itself writes to is kept at one of the given places. -/
def Expr.WritesTo (own : Place → Prop) (ctx : Context) (e : Expr) : Prop :=
  ∀ target ∈ e.writeTarget?, ∀ b ∈ ctx.target? target, own b.place

/-- Only the given places are written to, and only functions with the given names are called. -/
def Expr.IsWithin (own : Place → Prop) (names : List String) (ctx : Context) (e : Expr) : Prop :=
  e.Everywhere fun s => s.WritesTo own ctx ∧ s.callsAmong names

section Within

variable {R : Memory → Memory → Prop} {own : Place → Prop} {names : List String} {calls : Calls}

/-- Applying a conversion, the remainder or a given function. -/
theorem Context.apply_within [IsPreorder Memory R]
    (hcalls : ∀ f ∈ names, ∀ args, (calls f args).Within R) (ctx : Context) {f : String}
    (args : List Argument)
    (hf : (ScalarType.ofCName? f).isSome || f == remainderFunction || names.contains f) :
    (ctx.apply calls f args).Within R := by
  unfold Context.apply
  split
  · split
    · exact (Action.quiet_pure _).within
    · exact Action.quiet_stuck.within
  · next hname =>
    split
    · exact (Action.quiet_ofOption _).within
    · next hremainder =>
      have hmem : f ∈ names := by
        simpa [hname, hremainder] using hf
      split
      · exact Action.quiet_stuck.within
      · refine (hcalls f hmem args).bind fun v => ?_
        split
        · exact (Action.quiet_pure _).within
        · exact Action.quiet_stuck.within

theorem Binding.element_quiet (rules : Rules) (b : Binding) (v : Scalar) :
    (b.element rules v).Quiet := by
  unfold Binding.element
  split
  · exact Action.quiet_pure _
  · exact Action.quiet_stuck

/-- The elements of an array are at its place and have its type. -/
theorem Binding.returns_element (rules : Rules) (b : Binding) (v : Scalar) :
    (b.element rules v).Returns fun cell => cell.place = b.place ∧ cell.type = b.type := by
  unfold Binding.element
  split
  · exact Action.returns_pure ⟨rfl, rfl⟩
  · exact Action.returns_stuck

theorem Context.element_within [IsPreorder Memory R] (rules : Rules) (ctx : Context) (a i : Expr)
    {evalA evalI : Action Scalar} (ha : evalA.Within R) (hi : evalI.Within R) :
    (ctx.element rules a i evalA evalI).Within R := by
  unfold Context.element
  split
  · exact hi.bind fun v => (Binding.element_quiet rules _ v).within
  · exact ha.bind fun v => (Binding.element_quiet rules _ v).within
  · exact Action.quiet_stuck.within

theorem Context.argument_within [IsPreorder Memory R] {rules : Rules} {ctx : Context}
    {param : Option ScalarType} {e : Expr} {evalE : Action Scalar} (he : evalE.Within R) :
    (ctx.argument rules param e evalE).Within R := by
  unfold Context.argument
  split
  · exact (Action.quiet_pure _).within
  · exact (Action.quiet_pure _).within
  · exact he.bind fun v =>
      (Action.quiet_ofOption _).within.bind fun w => (Action.quiet_pure _).within

namespace Expr

/-- An assigned expression names a cell of its variable or array. -/
theorem returns_evalCell (rules : Rules) (calls : Calls) (ctx : Context) {target : Expr}
    (h : ∀ b ∈ ctx.target? target, own b.place) :
    (target.evalCell rules calls ctx).Returns fun c => own c.place := by
  cases target with
  | id name c =>
    rw [evalCell]
    refine Action.returns_ofOption fun cell hcell => ?_
    obtain ⟨b, hb, -, rfl⟩ := Context.binding?_of_cell? hcell
    exact h b hb
  | index a i c =>
    have helement (b : Binding) (hb : ctx.target? (.index a i c) = some b) (v : Scalar) :
        (b.element rules v).Returns fun c => own c.place :=
      (b.returns_element rules v).imp fun cell hcell => hcell.1 ▸ h b hb
    rw [evalCell, Context.element]
    split
    · next b ha => exact Action.returns_bind (helement b (by simp [Context.target?, ha]))
    · next b ha hi => exact Action.returns_bind (helement b (by simp [Context.target?, ha, hi]))
    · exact Action.returns_stuck
  | _ => exact Action.returns_stuck

mutual

/-- What an expression does to memory is what its writes and its calls do. -/
theorem eval_within [IsPreorder Memory R] (hcalls : ∀ f ∈ names, ∀ args, (calls f args).Within R)
    (hown : ∀ m m', Memory.AgreeOff own m m' → R m m') (rules : Rules)
    (ctx : Context) (e : Expr) (h : e.IsWithin own names ctx) :
    (e.eval rules calls ctx).Within R := by
  cases e with
  | id n c =>
    rw [eval]
    exact (Action.quiet_ofOption _).within.bind fun cell => (Action.quiet_read cell).within
  | literal v c =>
    rw [eval]
    exact (Action.quiet_ofOption _).within
  | binary op l r c =>
    obtain ⟨-, hl, hr⟩ := everywhere_binary.1 h
    rw [eval]
    refine (eval_within hcalls hown rules ctx l hl).bind fun v => ?_
    split
    · refine (Action.quiet_ofOption _).within.bind fun b => ?_
      split
      · exact (Action.quiet_pure _).within
      · exact (eval_within hcalls hown rules ctx r hr).bind fun w =>
          (Action.quiet_ofOption _).within.bind fun b => (Action.quiet_pure _).within
    · exact (eval_within hcalls hown rules ctx r hr).bind fun w => (Action.quiet_ofOption _).within
  | unary op e c =>
    obtain ⟨⟨hwrite, -⟩, he⟩ := everywhere_unary.1 h
    rw [eval]
    split
    · next hop =>
      have hplace : ∀ b ∈ ctx.target? e, own b.place := hwrite e (by simp [writeTarget?, hop])
      -- The cell is one of those that may be written to.
      refine (returns_evalCell rules calls ctx hplace).bind_within
        (evalCell_within hcalls hown rules ctx e he) fun cell hcell => ?_
      refine (Action.quiet_read cell).within.bind fun old => ?_
      refine (Action.quiet_ofOption _).within.bind fun new => ?_
      exact (Action.within_store hown rules hcell new).bind fun _ =>
        (Action.quiet_pure _).within
    · exact (eval_within hcalls hown rules ctx e he).bind fun v => (Action.quiet_ofOption _).within
  | assign op t v c =>
    obtain ⟨⟨hwrite, -⟩, ht, hv⟩ := everywhere_assign.1 h
    have hvalue := eval_within hcalls hown rules ctx v hv
    rw [eval]
    refine (returns_evalCell rules calls ctx (hwrite t rfl)).bind_within
      (evalCell_within hcalls hown rules ctx t ht) fun cell hcell => ?_
    have hstore := Action.within_store hown rules hcell
    split
    · exact hvalue.bind hstore
    · refine (Action.quiet_read cell).within.bind fun old => hvalue.bind fun w => ?_
      exact (Action.quiet_ofOption _).within.bind hstore
  | ternary p t e c =>
    obtain ⟨-, hp, ht, he⟩ := everywhere_ternary.1 h
    rw [eval]
    refine (eval_within hcalls hown rules ctx p hp).bind fun v => ?_
    refine (Action.quiet_ofOption _).within.bind fun b => ?_
    cases b with
    | false =>
      exact (eval_within hcalls hown rules ctx e he).bind fun w => (Action.quiet_pure _).within
    | true =>
      exact (eval_within hcalls hown rules ctx t ht).bind fun w => (Action.quiet_pure _).within
  | call f args c =>
    obtain ⟨⟨-, hf⟩, hargs⟩ := everywhere_call.1 h
    rw [eval]
    exact (evalArgs_within hcalls hown rules ctx _ 0 args hargs).bind fun values =>
      ctx.apply_within hcalls values hf
  | cast type e c =>
    obtain ⟨-, he⟩ := everywhere_cast.1 h
    rw [eval]
    exact (eval_within hcalls hown rules ctx e he).bind fun v => (Action.quiet_pure _).within
  | index a i c =>
    obtain ⟨-, ha, hi⟩ := everywhere_index.1 h
    rw [eval]
    have hcell := Context.element_within rules ctx a i (eval_within hcalls hown rules ctx a ha)
      (eval_within hcalls hown rules ctx i hi)
    exact hcell.bind fun cell => (Action.quiet_read cell).within
  | initList items c =>
    rw [eval]
    exact Action.quiet_stuck.within
  | comma items c =>
    obtain ⟨-, hitems⟩ := everywhere_comma.1 h
    rw [eval]
    exact evalLast_within hcalls hown rules ctx items hitems

/-- Finding the cell of a target does what the parts of the target do. -/
theorem evalCell_within [IsPreorder Memory R]
    (hcalls : ∀ f ∈ names, ∀ args, (calls f args).Within R)
    (hown : ∀ m m', Memory.AgreeOff own m m' → R m m') (rules : Rules)
    (ctx : Context) (e : Expr) (h : e.IsWithin own names ctx) :
    (e.evalCell rules calls ctx).Within R := by
  cases e with
  | id n c =>
    rw [evalCell]
    exact (Action.quiet_ofOption _).within
  | index a i c =>
    obtain ⟨-, ha, hi⟩ := everywhere_index.1 h
    rw [evalCell]
    exact Context.element_within rules ctx a i (eval_within hcalls hown rules ctx a ha)
      (eval_within hcalls hown rules ctx i hi)
  | _ => exact Action.quiet_stuck.within

theorem evalArgs_within [IsPreorder Memory R]
    (hcalls : ∀ f ∈ names, ∀ args, (calls f args).Within R)
    (hown : ∀ m m', Memory.AgreeOff own m m' → R m m') (rules : Rules)
    (ctx : Context) (signature : Option Signature) (i : Nat) (args : List Expr)
    (h : ∀ e ∈ args, e.IsWithin own names ctx) :
    (evalArgs rules calls ctx signature i args).Within R := by
  cases args with
  | nil =>
    rw [evalArgs]
    exact (Action.quiet_pure _).within
  | cons e rest =>
    obtain ⟨he, hrest⟩ := List.forall_mem_cons.1 h
    rw [evalArgs]
    exact (Context.argument_within (eval_within hcalls hown rules ctx e he)).bind fun arg =>
      (evalArgs_within hcalls hown rules ctx signature (i + 1) rest hrest).bind fun values =>
        (Action.quiet_pure _).within

theorem evalLast_within [IsPreorder Memory R]
    (hcalls : ∀ f ∈ names, ∀ args, (calls f args).Within R)
    (hown : ∀ m m', Memory.AgreeOff own m m' → R m m') (rules : Rules)
    (ctx : Context) (items : List Expr) (h : ∀ e ∈ items, e.IsWithin own names ctx) :
    (evalLast rules calls ctx items).Within R := by
  match items with
  | [] =>
    rw [evalLast]
    exact Action.quiet_stuck.within
  | [e] =>
    rw [evalLast]
    exact eval_within hcalls hown rules ctx e (h e (by simp))
  | e :: e' :: rest =>
    obtain ⟨he, hrest⟩ := List.forall_mem_cons.1 h
    rw [evalLast]
    · exact (eval_within hcalls hown rules ctx e he).bind fun _ =>
        evalLast_within hcalls hown rules ctx (e' :: rest) hrest
    · simp

end

/-! ### Quiet expressions -/

/-- Nothing is written, and only quiet functions are called. -/
def IsQuiet (names : List String) (e : Expr) : Prop :=
  e.Everywhere fun s => s.writeTarget? = none ∧ s.callsAmong names

theorem isQuiet_iff {e : Expr} :
    e.IsQuiet names ↔ e.hasSideEffects = false ∧ e.subexprs.all (callsAmong names) := by
  rw [← everywhere_writeTarget?, List.all_eq_true]
  exact forall₂_and

/-- An expression without side effects writes to no place. -/
theorem IsQuiet.isWithin {e : Expr} (h : e.IsQuiet names) (own : Place → Prop) (ctx : Context) :
    e.IsWithin own names ctx := by
  refine h.imp fun s hs => ⟨?_, hs.2⟩
  intro target htarget
  rw [hs.1] at htarget
  cases htarget

/-- Expressions without side effects are quiet. -/
theorem eval_quiet (hcalls : calls.QuietOn names) (rules : Rules) (ctx : Context) (e : Expr)
    (h : e.IsQuiet names) : (e.eval rules calls ctx).Quiet :=
  Action.within_eq_iff.1 <| eval_within (fun f hf args => Action.within_eq_iff.2 (hcalls f hf args))
    (fun _ _ => Memory.eq_of_agreeOff) rules ctx e (h.isWithin _ ctx)

/-- The cell of a target without side effects is found quietly. -/
theorem evalCell_quiet (hcalls : calls.QuietOn names) (rules : Rules) (ctx : Context) {e : Expr}
    (h : e.IsQuiet names) : (e.evalCell rules calls ctx).Quiet :=
  Action.within_eq_iff.1 <| evalCell_within
    (fun f hf args => Action.within_eq_iff.2 (hcalls f hf args))
    (fun _ _ => Memory.eq_of_agreeOff) rules ctx e (h.isWithin _ ctx)

end Expr

end Within

end MathKernel
