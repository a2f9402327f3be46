import MathKernel.Proofs.Normalize.LoopNames
import MathKernel.Proofs.Semantics.Interpretation

/-!
# Bounded loops do what the loops did

A loop that ends within the cap does the same with its turns counted, whatever the conditions and
the simple statements are. A `while` loop tests first, and so does the loop in its place. A
`do … while` loop has its test appended to the body. It is reached only by turns that come to the
end of the body, and it stands in the scope of the names that the body declares, so a turn must
not end in a `continue`, and the condition must not use these names.

## Main definitions

* `Stmt.GuardFits`, `Stmt.GuardsFit` — a test at the end of the body tests what the loop did

## Main results

* `Interpretation.counted_follows` — a loop whose turns are counted is the loop
* `Stmt.exec_bounded` — a statement with its loops bounded runs as before within the cap
* `Stmt.ends_boundLoops_whileLoop`, `Stmt.ends_boundLoops_doWhile` — the two kinds of loops
-/

namespace MathKernel

variable {V W α β : Type}

/-! ### Steps -/

namespace Step

variable {t : Step V W Bool} {x y : Step V W Ending}

theorem framed_pure (names : List String) (a : α) :
    (pure a : Step V W α).framed names = pure a := by
  funext σ
  exact congrArg (fun υ => some (a, υ)) Store.frame_only

theorem framed_map (names : List String) (f : α → β) (x : Step V W α) :
    (f <$> x).framed names = f <$> x.framed names := by
  funext σ
  change (x (σ.only names) >>= _).map _ = ((x (σ.only names)).map _ >>= _)
  cases x (σ.only names) <;> rfl

theorem andThen_done (x : Step V W Ending) : x.andThen (pure .done) = x := by
  conv_rhs => rw [← bind_pure x]
  refine bind_congr fun o => ?_
  split
  · next h => rw [h]
  · rfl

theorem andThen_assoc (x y z : Step V W Ending) :
    (x.andThen y).andThen z = x.andThen (y.andThen z) := by
  simp only [andThen, bind_assoc]
  refine bind_congr fun o => ?_
  split
  · rfl
  · next h => simp [h]

theorem choose_not (t : Step V W Bool) (x y : Step V W Ending) :
    choose ((fun b => !b) <$> t) x y = choose t y x := by
  simp only [choose, map_eq_pure_bind, bind_assoc, pure_bind]
  refine bind_congr fun b => ?_
  cases b <;> rfl

/-- The guard of a loop: leave it where the test fails. -/
def guard (t : Step V W Bool) : Step V W Ending :=
  choose t (pure .done) (pure .broke)

theorem guard_andThen (t : Step V W Bool) (x : Step V W Ending) :
    t.guard.andThen x = choose t x (pure .broke) := by
  simp only [guard, choose, andThen, bind_assoc]
  refine bind_congr fun b => ?_
  cases b <;> simp

theorem catchContinue_choose (t : Step V W Bool) (x : Step V W Ending) :
    (choose t x (pure .broke)).catchContinue = choose t x.catchContinue (pure .broke) := by
  simp only [choose, catchContinue, bind_assoc]
  refine bind_congr fun b => ?_
  cases b <;> simp

theorem catchContinue_eq_self (h : ∀ σ τ, x σ ≠ some (.continued, τ)) : x.catchContinue = x := by
  funext σ
  change (x σ >>= fun r => pure (if r.1 = .continued then .done else r.1, r.2)) = x σ
  cases hx : x σ with
  | none => rfl
  | some r =>
    have hr : r.1 ≠ .continued := fun hr => h σ r.2 (by rw [hx, ← hr])
    exact congrArg some (by rw [if_neg hr])

/-- Where no turn is cut short, the test may belong to the body. -/
theorem turnLast_eq (h : ∀ σ τ, x σ ≠ some (.continued, τ)) (t : Step V W Bool) :
    turnLast x t = (x.andThen t.guard).catchContinue := by
  have hguarded (σ τ : Store V W) : (x.andThen t.guard) σ ≠ some (.continued, τ) := by
    intro hrun
    obtain ⟨o, υ, hx, hrest⟩ := bind_eq_some.1 hrun
    split at hrest
    · obtain ⟨b, ρ, -, hb⟩ := bind_eq_some.1 hrest
      cases b <;> cases hb
    · cases hrest
      exact h σ τ hx
  rw [catchContinue_eq_self hguarded, turnLast, catchContinue_eq_self h]
  rfl

namespace Follows

variable {C D : List String} {x y z : Step V W α}

theorem refl (x : Step V W α) : Follows [] x x := by
  intro μ σ a τ hrun
  simpa using hrun

theorem trans (hxy : Follows C x y) (hyz : Follows D y z) : Follows (C ++ D) x z := by
  intro μ σ a τ h
  have hpatch (σ : Store V W) : (σ.patch C μ).patch D μ = σ.patch (C ++ D) μ := by
    ext w b
    · by_cases hC : w ∈ C <;> by_cases hD : w ∈ D <;> simp [Store.patch, hC, hD]
    · rfl
  rw [← hpatch, ← hpatch]
  exact hyz μ _ a _ (hxy μ σ a τ h)

/-- A step that does the same whatever the given names stand for does not change them. -/
theorem locals_eq (h : Follows C x x) {σ τ : Store V W} {a : α} (hrun : x σ = some (a, τ))
    {w : String} (hw : w ∈ C) : τ.locals w = σ.locals w := by
  have hpatched := h σ.locals σ a τ hrun
  rw [Store.patch_locals_self, hrun] at hpatched
  obtain ⟨-, hτ⟩ := Prod.mk.inj (Option.some.inj hpatched)
  rw [hτ]
  exact Store.locals_patch_of_mem hw

end Follows

/-- What does not use a name may stand in its scope. -/
theorem binding_andThen {w : String} {v : V} (hy : Follows [w] y y) :
    Follows [] ((x.binding w v).andThen y) ((x.andThen y).binding w v) := by
  intro μ σ o τ hrun
  simp only [Store.patch_nil]
  obtain ⟨o₁, υ, hbind, hrest⟩ := bind_eq_some.1 hrun
  obtain ⟨⟨o₂, ρ⟩, hx, heq⟩ := Option.map_eq_some_iff.1 hbind
  obtain ⟨rfl, rfl⟩ := Prod.mk.inj heq
  refine Option.map_eq_some_iff.2 ?_
  split at hrest
  · next hdone =>
    -- The second step ran with the outer meaning of the name; run it with the inner one.
    have hinner := hy ρ.locals _ o τ hrest
    have hback : (ρ.set w (σ.locals w)).patch [w] ρ.locals = ρ := by
      ext u b
      · by_cases hu : u = w <;> simp [Store.patch, Store.set, hu]
      · rfl
    have hkeep : τ.locals w = σ.locals w :=
      (hy.locals_eq hrest List.mem_cons_self).trans Store.locals_set_self
    rw [hback] at hinner
    refine ⟨(o, τ.patch [w] ρ.locals), bind_eq_some.2 ⟨o₂, ρ, hx, ?_⟩, ?_⟩
    · rw [if_pos hdone]
      exact hinner
    · refine congrArg (o, ·) ?_
      ext u b
      · by_cases hu : u = w <;> simp [Store.patch, Store.set, hu, hkeep]
      · rfl
  · next hdone =>
    cases hrest
    exact ⟨(o, ρ), bind_eq_some.2 ⟨o, ρ, hx, by rw [if_neg hdone]; rfl⟩, rfl⟩

end Step

/-! ### Counting turns -/

namespace Interpretation

variable {C : List String} (I : Interpretation V W)

/-- The test of a bounded loop. -/
def counterTest (k : String) : Step V W Bool :=
  I.forTest (some (.binary .lt (.id k none) (.int iterationCap none) none))

/-- The step of a bounded loop. -/
def counterNext (k : String) : Step V W Ending :=
  I.forNext (some (.unary .postInc (.id k none) none))

variable {I} {k : String} {i : Nat} {σ τ : Store V W} {μ : String → Option V}
  {turn body : Step V W Ending} {o : Ending}

theorem counterTest_eq (hi : i < iterationCap.toNat) (hk : σ.locals k = some (I.number i)) :
    I.counterTest k σ = some (true, σ) := by
  have hmem : k ∈ (Expr.binary .lt (.id k none) (.int iterationCap none) none).names := by
    simp [Expr.names, Expr.uses, Expr.use?, Expr.subexprs]
  have hlocal : (σ.only (Expr.binary .lt (.id k none) (.int iterationCap none) none).names).locals k
      = some (I.number i) := by
    simpa [Store.only, hmem] using hk
  simp [counterTest, forTest, check, Step.framed, I.test_counter k i _ hi.le hlocal, hi]

theorem counterNext_eq (hi : i < iterationCap.toNat) (hk : σ.locals k = some (I.number i)) :
    I.counterNext k σ = some (.done, σ.set k (some (I.number (i + 1)))) := by
  have hmem : k ∈ (Expr.unary .postInc (.id k none) none).names := by
    simp [Expr.names, Expr.uses, Expr.use?, Expr.subexprs]
  have hlocal : (σ.only (Expr.unary .postInc (.id k none) none).names).locals k =
      some (I.number i) := by
    simpa [Store.only, hmem] using hk
  simp [counterNext, forNext, act, Stmt.ownExprs, Step.framed,
    I.perform_counter k i _ hi hlocal, Store.frame_set_only hmem]

/-- A turn of the loop, and then the counter goes on. -/
theorem counted_turn (hk : k ∈ C) (hbody : Step.Follows C turn body.catchContinue)
    (hi : i < iterationCap.toNat) (hμ : μ k = some (I.number i)) (hrun : turn σ = some (o, τ)) :
    Step.turn (I.counterTest k) body (I.counterNext k) (σ.patch C μ) =
      some (o, τ.patch C
        (if o = .done then Function.update μ k (some (I.number (i + 1))) else μ)) := by
  have hlocal (υ : Store V W) : (υ.patch C μ).locals k = some (I.number i) :=
    (Store.locals_patch_of_mem hk).trans hμ
  refine Step.bind_eq_some.2 ⟨true, _, counterTest_eq hi (hlocal σ), ?_⟩
  refine Step.bind_eq_some.2 ⟨o, _, hbody μ σ o τ hrun, ?_⟩
  split
  · next hdone =>
    rw [counterNext_eq hi (hlocal τ), Store.set_patch_of_mem hk, hdone]
  · rfl

/-- Turn after turn, with the counter at the number of turns taken. -/
theorem counted_iterate (hk : k ∈ C) (hbody : Step.Follows C turn body.catchContinue) {n m : Nat}
    (hi : i + n ≤ iterationCap.toNat) (hnm : n ≤ m) (hμ : μ k = some (I.number i))
    (hrun : turn.iterate n σ = some (o, τ)) :
    ∃ v, (Step.turn (I.counterTest k) body (I.counterNext k)).iterate m (σ.patch C μ) =
      some (o, τ.patch C (Function.update μ k v)) := by
  induction n generalizing i m σ μ with
  | zero => cases hrun
  | succ n ih =>
    obtain ⟨m, rfl⟩ := Nat.exists_eq_add_of_le' (Nat.lt_of_lt_of_le n.succ_pos hnm)
    obtain ⟨o₁, υ, hturn, hrest⟩ := Step.bind_eq_some.1 hrun
    have hcounted := counted_turn hk hbody (by omega) hμ hturn
    simp only [Step.iterate, Step.bind_eq_some]
    by_cases hdone : o₁ = .done
    · -- The turn leaves the counter one higher, and the rest takes the turns that are left.
      rw [if_pos hdone] at hrest hcounted
      have hμ' : Function.update μ k (some (I.number (i + 1))) k = some (I.number (i + 1)) :=
        Function.update_self ..
      obtain ⟨v, hv⟩ := ih (m := m) (by omega) (by omega) hμ' hrest
      rw [Function.update_idem] at hv
      exact ⟨v, o₁, _, hcounted, by rw [if_pos hdone]; exact hv⟩
    · rw [if_neg hdone] at hrest hcounted
      cases hrest
      refine ⟨μ k, o₁, _, hcounted, ?_⟩
      rw [if_neg hdone, Function.update_eq_self]
      rfl

/-- A loop whose turns are counted is the loop, within the cap. -/
theorem counted_follows (hk : k ∈ C) (hbody : Step.Follows C turn body.catchContinue) {m : Nat}
    (hm : iterationCap.toNat ≤ m) :
    Step.Follows C (turn.iterate iterationCap.toNat)
      (I.afterInit (some (.decls [.ofScalar k .int (some (.int 0 none))]))
        ((Step.turn (I.counterTest k) body (I.counterNext k)).iterate m)) := by
  intro μ σ o τ hrun
  obtain ⟨v, hv⟩ := counted_iterate (μ := Function.update μ k (some (I.number 0))) (i := 0) hk hbody
    (by omega) hm (Function.update_self ..) hrun
  have hdeclare : Step.framed
      ((Decl.ofScalar k .int (some (.int 0 none))).rootExprs.flatMap Expr.names)
      (I.declare (.ofScalar k .int (some (.int 0 none)))) (σ.patch C μ) =
        some (I.number 0, σ.patch C μ) := by
    rw [I.declare_counter, Step.framed_pure]
    rfl
  refine Step.bind_eq_some.2 ⟨I.number 0, σ.patch C μ, hdeclare, ?_⟩
  rw [← Store.set_patch_of_mem hk] at hv
  refine Option.map_eq_some_iff.2 ⟨_, hv, congrArg (o, ·) ?_⟩
  -- The counter goes out of scope, and its name stands for what it stood for before.
  rw [Store.set_patch_of_mem hk, Store.locals_patch_of_mem hk]
  simp

end Interpretation

/-! ### Guards -/

namespace Stmt

variable {C : List String} {I : Interpretation V W}

theorem exec_exitUnless (p : Expr) (turns cap : Nat) :
    (exitUnless p).exec I turns cap = (I.check p).guard := by
  have hbrk : I.act (brk none) = pure .broke := by
    rw [Interpretation.act, I.perform_brk, Step.framed_pure]
  have hnot : I.check (.unary .not p none) = (fun b => !b) <$> I.check p := by
    have hnames : (Expr.unary .not p none).names = p.names := by
      simp [Expr.names, Expr.uses, Expr.use?, Expr.subexprs, List.filterMap_cons]
    rw [Interpretation.check, I.test_not, Step.framed_map, hnames]
    rfl
  simp only [exitUnless, exec, hbrk, hnot, Step.choose_not]
  rfl

/-- Without its braces a body does the same. -/
theorem execList_bodyItems (s : Stmt) (turns cap : Nat) :
    execList I turns cap s.bodyItems = s.exec I turns cap := by
  have hempty (c : Coord) : I.act (empty c) = pure .done := by
    rw [Interpretation.act, I.perform_empty, Step.framed_pure]
  have hlone (s : Stmt) : execList I turns cap [s] = s.exec I turns cap := by
    simp only [execList]
    cases hd : s.declared? with
    | none => exact Step.andThen_done _
    | some d =>
      fun_induction declared? s with
      | case1 d' c =>
        cases hd
        rfl
      | case2 n s c ih => exact ih hd
      | case3 => cases hd
  cases s with
  | block => rfl
  | empty c => exact (hempty c).symm
  | _ => exact hlone _

/-! ### Tests at the end of a body -/

/-- The names that items of a block declare for the items after them. -/
def declaredNames (items : List Stmt) : List String :=
  items.filterMap fun s => s.declared?.bind Decl.name

/-- What uses none of the names that the items declare may stand after them. -/
theorem execList_append {items : List Stmt} {g : Stmt} {turns cap : Nat}
    (hg : g.declared? = none)
    (hnames : ∀ x ∈ declaredNames items,
      Step.Follows [x] (g.exec I turns cap) (g.exec I turns cap)) :
    Step.Follows [] ((execList I turns cap items).andThen (g.exec I turns cap))
      (execList I turns cap (items ++ [g])) := by
  induction items with
  | nil =>
    simp only [List.nil_append, execList, hg, Step.andThen_done]
    exact .refl _
  | cons s rest ih =>
    simp only [declaredNames, List.filterMap_cons] at hnames
    simp only [List.cons_append, execList]
    cases hd : s.declared? with
    | none =>
      simp only [hd, Option.bind_none] at hnames
      simp only [Step.andThen_assoc]
      exact (Step.Follows.refl _).andThen (ih hnames)
    | some d =>
      simp only [hd, Option.bind_some] at hnames
      simp only [Interpretation.declaring, Step.andThen, bind_assoc]
      refine (Step.Follows.refl _).bind fun v => ?_
      cases hx : d.name with
      | none =>
        simp only [hx] at hnames
        exact ih hnames
      | some x =>
        simp only [hx, List.forall_mem_cons] at hnames
        -- The guard leaves the scope of the name, in which it stands afterwards.
        exact (Step.binding_andThen hnames.1).trans
          ((ih hnames.2).binding List.not_mem_nil v)

theorem declared?_bounded (counter : Nat → String) (i : Nat) (s : Stmt) :
    (s.bounded counter i).declared? = s.declared? := by
  fun_induction declared? s with
  | case1 => rfl
  | case2 n s c ih => exact ih
  | case3 s hdecl hlabel =>
    cases s with
    | decl d c => exact absurd rfl (hdecl d c)
    | label n s c => exact absurd rfl (hlabel n s c)
    | _ => rfl

theorem declaredNames_bounded (counter : Nat → String) (i : Nat) (s : Stmt) :
    declaredNames (s.bounded counter i).bodyItems = declaredNames s.bodyItems := by
  have hlist (items : List Stmt) (i : Nat) :
      declaredNames (boundedList counter i items) = declaredNames items := by
    induction items generalizing i with
    | nil => rfl
    | cons s rest ih =>
      simp only [declaredNames, boundedList, List.filterMap_cons, declared?_bounded] at ih ⊢
      rw [ih]
  cases s with
  | block items b c => exact hlist items i
  | label n s c => exact hlist [label n s c] i
  | _ => rfl

/-- A test at the end of the body tests what the loop tested: every turn comes to it, and it is in
the scope of no name that it uses. -/
structure GuardFits (I : Interpretation V W) (p : Expr) (body : Stmt) : Prop where
  reached : ∀ turns σ τ, body.exec I turns iterationCap.toNat σ ≠ some (.continued, τ)
  unshadowed : (declaredNames body.bodyItems).Disjoint p.names

/-- The tests of all loops that test last fit. -/
def GuardsFit (I : Interpretation V W) (s : Stmt) : Prop :=
  ∀ p body c, doWhile p body c ∈ s.substmts → GuardFits I p body

/-! ### Loops -/

/-- A turn of a `while` loop tests and then runs the body. -/
theorem turn_follows {x : Step V W Ending} {p : Expr} {body : Stmt} {turns cap : Nat}
    (hp : Step.Follows C (I.check p) (I.check p))
    (hbody : Step.Follows C x (body.exec I turns cap)) :
    Step.Follows C (.turn (I.check p) x (pure .done))
      (execList I turns cap (exitUnless p :: body.bodyItems)).catchContinue := by
  have hnew : execList I turns cap (exitUnless p :: body.bodyItems) =
      .choose (I.check p) (body.exec I turns cap) (pure .broke) := by
    rw [execList]
    change ((exitUnless p).exec I turns cap).andThen _ = _
    rw [exec_exitUnless, execList_bodyItems, Step.guard_andThen]
  rw [hnew, Step.catchContinue_choose, Step.turn, Step.andThen_done]
  exact hp.choose hbody.catchContinue (.pure _)

/-- A turn of a `do … while` loop runs the body and then tests, unless the body is cut short or
declares what the test uses. -/
theorem turnLast_follows {x : Step V W Ending} {p : Expr} {body : Stmt} {turns cap : Nat}
    (hx : ∀ σ τ, x σ ≠ some (.continued, τ)) (hp : Step.Follows C (I.check p) (I.check p))
    (hbody : Step.Follows C x (body.exec I turns cap))
    (hnames : (declaredNames body.bodyItems).Disjoint p.names) :
    Step.Follows C (.turnLast x (I.check p))
      (execList I turns cap (body.bodyItems ++ [exitUnless p])).catchContinue := by
  have hguard {D : List String} (h : Step.Follows D (I.check p) (I.check p)) :
      Step.Follows D (I.check p).guard (I.check p).guard :=
    h.choose (.pure _) (.pure _)
  have happend : Step.Follows [] ((body.exec I turns cap).andThen (I.check p).guard)
      (execList I turns cap (body.bodyItems ++ [exitUnless p])) := by
    rw [← execList_bodyItems, ← exec_exitUnless p turns cap]
    refine execList_append rfl fun w hw => ?_
    rw [exec_exitUnless]
    refine hguard (I.check_follows ?_)
    simpa using hnames hw
  rw [Step.turnLast_eq hx]
  simpa using ((hbody.andThen (hguard hp)).trans happend).catchContinue

mutual

/-- A statement with its loops bounded runs as before, if no loop takes more turns than the cap
each time it is entered. -/
theorem exec_bounded (s : Stmt) {counter : Nat → String} {i : Nat} (hC : C.Disjoint s.names)
    (hcounters : ∀ j, i ≤ j → j < i + s.loopCount → counter j ∈ C) (hfit : s.GuardsFit I)
    {turns turns' cap : Nat} (hturns : turns ≤ turns') (hcap : iterationCap.toNat ≤ turns') :
    Step.Follows C (s.exec I turns iterationCap.toNat)
      ((s.bounded counter i).exec I turns' cap) := by
  cases s with
  | decl d c =>
    obtain ⟨hexprs, hname⟩ := disjoint_of_declared? (s := decl d c) rfl hC
    exact I.declaring_follows hexprs hname (.pure _)
  | block items b c =>
    exact execList_bounded items (by simpa using hC) hcounters
      (fun p body c' h => hfit p body c' (.tail _ h)) hturns hcap
  | ifThen p t c =>
    simp only [names_ifThen, List.disjoint_append_right] at hC
    refine (I.check_follows hC.1).choose ?_ (.pure _)
    exact exec_bounded t hC.2 hcounters (fun p body c' h => hfit p body c' (.tail _ h)) hturns hcap
  | ifElse p t e c =>
    simp only [names_ifElse, List.disjoint_append_right] at hC
    rw [loopCount_ifElse] at hcounters
    refine (I.check_follows hC.1).choose ?_ ?_
    · refine exec_bounded t hC.2.1 (fun j _ _ => hcounters j (by omega) (by omega)) ?_ hturns hcap
      exact fun p body c' h => hfit p body c' (.tail _ (List.mem_append_left _ h))
    · refine exec_bounded e hC.2.2 (fun j _ _ => hcounters j (by omega) (by omega)) ?_ hturns hcap
      exact fun p body c' h => hfit p body c' (.tail _ (List.mem_append_right _ h))
  | forLoop init cond next body c =>
    simp only [names_forLoop, ownNames, ownExprs, ownDecls, List.flatMap_append,
      List.disjoint_append_right] at hC
    obtain ⟨⟨⟨⟨hinit, hcond⟩, hnext⟩, hdecls⟩, hbody⟩ := hC
    refine I.afterInit_follows hinit hdecls (Step.Follows.iterate ?_ hturns)
    refine (I.forTest_follows hcond).turn ?_ (I.forNext_follows hnext)
    exact exec_bounded body hbody hcounters (fun p body c' h => hfit p body c' (.tail _ h)) hturns
      hcap
  | whileLoop p body c =>
    simp only [names_whileLoop, List.disjoint_append_right] at hC
    rw [loopCount_whileLoop] at hcounters
    have hbody : Step.Follows C (body.exec I turns iterationCap.toNat)
        ((body.bounded counter (i + 1)).exec I turns' cap) :=
      exec_bounded body hC.2 (fun j _ _ => hcounters j (by omega) (by omega))
        (fun p body c' h => hfit p body c' (.tail _ h)) hturns hcap
    -- The first counter is the loop's own, the next ones belong to the loops in its body.
    refine Interpretation.counted_follows (hcounters i (by omega) (by omega)) ?_ hcap
    exact turn_follows (I.check_follows hC.1) hbody
  | doWhile p body c =>
    simp only [names_doWhile, List.disjoint_append_right] at hC
    rw [loopCount_doWhile] at hcounters
    have hbody : Step.Follows C (body.exec I turns iterationCap.toNat)
        ((body.bounded counter (i + 1)).exec I turns' cap) :=
      exec_bounded body hC.2 (fun j _ _ => hcounters j (by omega) (by omega))
        (fun p body c' h => hfit p body c' (.tail _ h)) hturns hcap
    refine Interpretation.counted_follows (hcounters i (by omega) (by omega)) ?_ hcap
    -- The test moves to the end of the body, which may neither skip it nor hide what it names.
    have hguard := hfit p body c List.mem_cons_self
    refine turnLast_follows (hguard.reached turns) (I.check_follows hC.1) hbody ?_
    rw [declaredNames_bounded]
    exact hguard.unshadowed
  | label n s c =>
    exact exec_bounded s (by simpa using hC) hcounters
      (fun p body c' h => hfit p body c' (.tail _ h)) hturns hcap
  | expr | ret | brk | cont | goto | empty =>
    exact I.act_follows (by simpa [names, substmts, ownNames, ownDecls] using hC)

theorem execList_bounded (items : List Stmt) {counter : Nat → String} {i : Nat}
    (hC : C.Disjoint (namesList items))
    (hcounters : ∀ j, i ≤ j → j < i + loopCountList items → counter j ∈ C)
    (hfit : ∀ p body c, doWhile p body c ∈ substmtsList items → GuardFits I p body)
    {turns turns' cap : Nat} (hturns : turns ≤ turns') (hcap : iterationCap.toNat ≤ turns') :
    Step.Follows C (execList I turns iterationCap.toNat items)
      (execList I turns' cap (boundedList counter i items)) := by
  cases items with
  | nil => exact .pure _
  | cons s rest =>
    simp only [namesList_cons, List.disjoint_append_right] at hC
    rw [loopCountList_cons] at hcounters
    -- The loops of the first statement take the first counters, those of the rest the next ones.
    have hrest : Step.Follows C (execList I turns iterationCap.toNat rest)
        (execList I turns' cap (boundedList counter (i + s.loopCount) rest)) :=
      execList_bounded rest hC.2 (fun j _ _ => hcounters j (by omega) (by omega))
        (fun p body c h => hfit p body c (List.mem_append_right _ h)) hturns hcap
    simp only [execList, boundedList, declared?_bounded]
    cases hd : s.declared? with
    | some d =>
      obtain ⟨hexprs, hname⟩ := disjoint_of_declared? hd hC.1
      exact I.declaring_follows hexprs hname hrest
    | none =>
      refine Step.Follows.andThen ?_ hrest
      exact exec_bounded s hC.1 (fun j _ _ => hcounters j (by omega) (by omega))
        (fun p body c h => hfit p body c (List.mem_append_left _ h)) hturns hcap

end

variable {s s' : Stmt} {pool pool' : NamePool} {σ τ : Store V W} {o : Ending}

/-- A statement with its loops bounded ends as before. The counters are gone then, so every name
stands for what it would stand for without them. -/
theorem ends_boundLoops (hrun : s.boundLoops.run pool = .ok (s', pool'))
    (hfresh : ∀ i, pool.next ≤ i → i < pool'.next → pool.name i ∉ s.names) (hfit : s.GuardsFit I)
    (h : s.EndsWithin I iterationCap.toNat σ o τ) : s'.Ends I σ o τ := by
  obtain ⟨n, hn⟩ := h
  obtain ⟨rfl, hnext⟩ := boundLoops_eq_ok hrun
  let counters := (List.range' pool.next s.loopCount).map pool.name
  have hC : counters.Disjoint s.names := by
    intro x hx
    obtain ⟨i, hi, rfl⟩ := List.mem_map.1 hx
    rw [List.mem_range'_1] at hi
    exact hfresh i hi.1 (by omega)
  have hcounters (i : Nat) (hlow : pool.next ≤ i) (hhigh : i < pool.next + s.loopCount) :
      pool.name i ∈ counters :=
    List.mem_map_of_mem (List.mem_range'_1.2 ⟨hlow, hhigh⟩)
  -- The names of the counters are as before, since the statement itself does not use them.
  have hkeep : τ.patch counters σ.locals = τ := by
    ext x a
    · by_cases hx : x ∈ counters
      · rw [Store.locals_patch_of_mem hx,
          (exec_follows s hC le_rfl le_rfl).locals_eq hn hx]
      · rw [Store.locals_patch_of_notMem hx]
    · rfl
  refine ⟨max n iterationCap.toNat, ?_⟩
  have hturns : iterationCap.toNat ≤ max n iterationCap.toNat := Nat.le_max_right ..
  simpa [hkeep] using exec_bounded s hC hcounters hfit (Nat.le_max_left ..) hturns σ.locals σ o τ hn

/-- A `while` loop whose body has no loop that tests last, all loops of which test their conditions
at most a thousand times each time they are entered, ends in the same way when its loops are
bounded by counters with new names. -/
theorem ends_boundLoops_whileLoop (I : Interpretation V W) {p : Expr} {body : Stmt} {c : Coord}
    (hdo : ∀ q b d, doWhile q b d ∉ body.substmts)
    (hrun : (whileLoop p body c).boundLoops.run pool = .ok (s', pool'))
    (hfresh : ∀ i, pool.next ≤ i → i < pool'.next → pool.name i ∉ (whileLoop p body c).names)
    (h : (whileLoop p body c).EndsWithin I 1000 σ o τ) :
    (whileLoop p body c).Ends I σ o τ ∧ s'.Ends I σ o τ := by
  refine ⟨h.ends, ends_boundLoops hrun hfresh (fun q b d hmem => ?_) h⟩
  rcases List.mem_cons.1 hmem with heq | hmem
  · cases heq
  · exact absurd hmem (hdo q b d)

/-- The store in which `n` and `m` are integers and no other name is known. -/
def twoIntegers (n m : Int) : Store Scalar Unit where
  locals x := if x = "n" then some (.int n) else if x = "m" then some (.int m) else none
  world := ()

/-- The loops `while (n-- > 0) { if (n == 1) break; while (m > n) { m--; continue; } }`. -/
def nestedLoops : Stmt :=
  whileLoop (.binary .gt (.unary .postDec (.id "n" none) none) (.int 0 none) none)
    (block [
      ifThen (.binary .eq (.id "n" none) (.int 1 none) none) (brk none) none,
      whileLoop (.binary .gt (.id "m" none) (.id "n" none) none)
        (block [expr (.unary .postDec (.id "m" none) none) none, cont none] none none) none]
      none none)
    none

theorem ends_boundLoops_nestedLoops : ∃ s' pool' τ,
    nestedLoops.boundLoops.run .counters = .ok (s', pool') ∧ τ.locals "n" = some (.int 1) ∧
    τ.locals "m" = some (.int 2) ∧ nestedLoops.Ends .scalars (twoIntegers 3 4) .done τ ∧
    s'.Ends .scalars (twoIntegers 3 4) .done τ := by
  have hruns : (nestedLoops.exec .scalars 0 1000 (twoIntegers 3 4)).map
      (fun r => (r.1, r.2.locals "n", r.2.locals "m")) =
        some (.done, some (.int 1), some (.int 2)) := by
    decide +kernel
  obtain ⟨⟨o, τ⟩, hrun, heq⟩ := Option.map_eq_some_iff.1 hruns
  simp only [Prod.mk.injEq] at heq
  obtain ⟨rfl, hn, hm⟩ := heq
  obtain ⟨s', pool', hbound⟩ : ∃ s' pool', nestedLoops.boundLoops.run .counters = .ok (s', pool') :=
    ⟨_, _, rfl⟩
  have hnext : pool'.next = 2 := (boundLoops_eq_ok hbound).2
  have hfresh : ∀ i < 2, NamePool.counters.name i ∉ nestedLoops.names := by decide
  refine ⟨s', pool', τ, hbound, hn, hm, ends_boundLoops_whileLoop .scalars ?_ hbound ?_ ⟨0, hrun⟩⟩
  · simp [substmts, substmtsList]
  · exact fun i _ hi => hfresh i (by omega)

/-- A `do … while` loop whose turns run to the end of the body, and whose condition uses no name
that the body declares, ends in the same way when it is bounded. -/
theorem ends_boundLoops_doWhile (I : Interpretation V W) {p : Expr} {body : Stmt} {c : Coord}
    (hfit : (doWhile p body c).GuardsFit I)
    (hrun : (doWhile p body c).boundLoops.run pool = .ok (s', pool'))
    (hfresh : ∀ i, pool.next ≤ i → i < pool'.next → pool.name i ∉ (doWhile p body c).names)
    (h : (doWhile p body c).EndsWithin I 1000 σ o τ) :
    (doWhile p body c).Ends I σ o τ ∧ s'.Ends I σ o τ :=
  ⟨h.ends, ends_boundLoops hrun hfresh hfit h⟩

/-- The loop `do m--; while (m > n)`. -/
def drainingLoop : Stmt :=
  doWhile (.binary .gt (.id "m" none) (.id "n" none) none)
    (expr (.unary .postDec (.id "m" none) none) none) none

theorem ends_boundLoops_drainingLoop : ∃ s' pool' τ,
    drainingLoop.boundLoops.run .counters = .ok (s', pool') ∧ τ.locals "m" = some (.int 3) ∧
    drainingLoop.Ends .scalars (twoIntegers 3 5) .done τ ∧
    s'.Ends .scalars (twoIntegers 3 5) .done τ := by
  have hruns : (drainingLoop.exec .scalars 0 1000 (twoIntegers 3 5)).map
      (fun r => (r.1, r.2.locals "m")) = some (.done, some (.int 3)) := by
    decide +kernel
  obtain ⟨⟨o, τ⟩, hrun, heq⟩ := Option.map_eq_some_iff.1 hruns
  obtain ⟨rfl, hm⟩ := Prod.mk.inj heq
  obtain ⟨s', pool', hbound⟩ :
      ∃ s' pool', drainingLoop.boundLoops.run .counters = .ok (s', pool') :=
    ⟨_, _, rfl⟩
  have hnext : pool'.next = 1 := (boundLoops_eq_ok hbound).2
  have hfresh : ∀ i < 1, NamePool.counters.name i ∉ drainingLoop.names := by decide
  refine ⟨s', pool', τ, hbound, hm, ends_boundLoops_doWhile .scalars ?_ hbound ?_ ⟨0, hrun⟩⟩
  · intro p body c hmem
    obtain ⟨rfl, rfl, rfl⟩ : p = _ ∧ body = _ ∧ c = _ := by
      simpa [drainingLoop, substmts] using hmem
    refine ⟨fun turns σ τ hturn => ?_, fun x hx => by cases hx⟩
    -- The body is an expression, which ends normally.
    obtain ⟨⟨o, υ⟩, hexpr, heq⟩ := Option.map_eq_some_iff.1 hturn
    obtain ⟨v, ρ, -, hdone⟩ := Step.bind_eq_some.1 hexpr
    cases hdone
    cases heq
  · exact fun i _ hi => hfresh i (by omega)

/-- Bounding the loops of a statement, by counters with new names, changes the value that a
variable ends with. -/
def ChangesWhenBounded (s : Stmt) (σ : Store Scalar Unit) (x : String) (before after : Scalar) :
    Prop :=
  ∃ s' pool' τ τ', s.boundLoops.run .counters = .ok (s', pool') ∧
    (∀ i < pool'.next, NamePool.counters.name i ∉ s.names) ∧
    s.EndsWithin .scalars 1000 σ .done τ ∧ s'.Ends .scalars σ .done τ' ∧
    τ.locals x = some before ∧ τ'.locals x = some after

theorem ChangesWhenBounded.of_runs {σ : Store Scalar Unit} {x : String} {v v' : Scalar}
    (turns turns' : Nat) (hbound : s.boundLoops.run .counters = .ok (s', pool'))
    (hfresh : ∀ i < s.loopCount, NamePool.counters.name i ∉ s.names)
    (hbefore : (s.exec .scalars turns 1000 σ).map (fun r => (r.1, r.2.locals x)) =
      some (.done, some v))
    (hafter : (s'.exec .scalars turns' turns' σ).map (fun r => (r.1, r.2.locals x)) =
      some (.done, some v')) : s.ChangesWhenBounded σ x v v' := by
  obtain ⟨⟨o, τ⟩, hrun, heq⟩ := Option.map_eq_some_iff.1 hbefore
  obtain ⟨⟨o', τ'⟩, hrun', heq'⟩ := Option.map_eq_some_iff.1 hafter
  obtain ⟨rfl, hx⟩ := Prod.mk.inj heq
  obtain ⟨rfl, hx'⟩ := Prod.mk.inj heq'
  have hnext : pool'.next = s.loopCount :=
    (boundLoops_eq_ok hbound).2.trans (Nat.zero_add _)
  exact ⟨s', pool', τ, τ', hbound, hnext ▸ hfresh, ⟨turns, hrun⟩, ⟨turns', hrun'⟩, hx, hx'⟩

/-- The loop `do { n--; if (n > 0) continue; n = 7; } while (0)`. -/
def continuingLoop : Stmt :=
  doWhile (.int 0 none)
    (block [
      expr (.unary .postDec (.id "n" none) none) none,
      ifThen (.binary .gt (.id "n" none) (.int 0 none) none) (cont none) none,
      expr (.assign .assign (.id "n" none) (.int 7 none) none) none] none none)
    none

/-- The loop `do { int n = 0; m++; } while (m < n)`. -/
def shadowingLoop : Stmt :=
  doWhile (.binary .lt (.id "m" none) (.id "n" none) none)
    (block [
      decl (.ofScalar "n" .int (some (.int 0 none))) none,
      expr (.unary .postInc (.id "m" none) none) none] none none)
    none

/-- A turn that ends in a `continue` misses the test at the end of the body, and a name that the
body declares hides the one that the condition uses. -/
theorem doWhile_changes_when_bounded :
    continuingLoop.ChangesWhenBounded (twoIntegers 3 0) "n" (.int 2) (.int 7) ∧
    shadowingLoop.ChangesWhenBounded (twoIntegers 3 0) "m" (.int 3) (.int 1) := by
  exact ⟨.of_runs 0 3 rfl (by decide) (by decide +kernel) (by decide +kernel),
    .of_runs 0 3 rfl (by decide) (by decide +kernel) (by decide +kernel)⟩

end Stmt

end MathKernel
