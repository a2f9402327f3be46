import MathKernel.Proofs.Semantics.Activations

/-!
# What code does to memory

Code changes memory only as its computations do: if each of them takes memories to related ones, so
does every run of the machine. The computations of a body are its declarations, which change the
places of the variables that they declare, and its expressions.

## Main definitions

* `Code.Within`, `Task.Within` — the computations of code keep to a relation
* `Memory.AgreeBelow`, `Calls.KeepBelow` — only variables from a number on are changed
* `Stmt.WithoutStatics` — no variable keeps its value from one run to the next

## Main results

* `Task.run_within` — runs of the machine
* `Stmt.codeList_within` — the code of bodies that write to variables from a number on only
-/

namespace MathKernel

open MathKernel.Action

/-! ### Code -/

/-- Every computation of the code keeps to the relation. -/
inductive Code.Within (R : Memory → Memory → Prop) : Code → Prop
  | act {run : Action Unit} (hrun : run.Within R) : Within R (.act run)
  | block {items : List Code} (hitems : ∀ c ∈ items, Within R c) : Within R (.block items)
  | branch {test : Action Bool} {t e : Code} (htest : test.Within R) (ht : Within R t)
    (he : Within R e) : Within R (.branch test t e)
  | loop {init next : Action Unit} {test : Action Bool} {body : Code} (hinit : init.Within R)
    (htest : test.Within R) (hnext : next.Within R) (hbody : Within R body) :
    Within R (.loop init test next body)
  | loopLast {test : Action Bool} {body : Code} (hbody : Within R body) (htest : test.Within R) :
    Within R (.loopLast body test)
  | ret {value : Action (Option Scalar)} (hvalue : value.Within R) : Within R (.ret value)
  | brk : Within R .brk
  | cont : Within R .cont
  | goto (l : String) : Within R (.goto l)
  | label (n : String) {c : Code} (hc : Within R c) : Within R (.label n c)

/-- Every computation of the task keeps to the relation. -/
inductive Task.Within (R : Memory → Memory → Prop) : Task → Prop
  | code {c : Code} (hc : c.Within R) : Within R (.code c)
  | turn {test : Action Bool} {next : Action Unit} {body : Code} (htest : test.Within R)
    (hnext : next.Within R) (hbody : body.Within R) : Within R (.turn test next body)
  | turnLast {body : Code} {test : Action Bool} (hbody : body.Within R) (htest : test.Within R) :
    Within R (.turnLast body test)

namespace Task

variable {R : Memory → Memory → Prop} {tasks rest : List Task} {body : Code}

/-- The items of a block before other tasks. -/
theorem within_items {items : List Code} (hitems : ∀ c ∈ items, c.Within R)
    (hrest : ∀ t ∈ rest, t.Within R) : ∀ t ∈ items.map code ++ rest, t.Within R := by
  refine List.forall_mem_append.2 ⟨?_, hrest⟩
  exact List.forall_mem_map.2 fun c hc => .code (hitems c hc)

mutual

/-- The tasks from a label. -/
theorem within_fromLabel (l : String) (rest : List Task) (hrest : ∀ t ∈ rest, t.Within R)
    (c : Code) (h : c.Within R) : ∀ tasks ∈ fromLabel l rest c, ∀ t ∈ tasks, t.Within R := by
  intro tasks htasks
  cases c with
  | act | ret | brk | cont | goto => cases htasks
  | block items =>
    cases h with
    | block hitems => exact within_fromLabelList l rest hrest items hitems tasks htasks
  | branch test t e =>
    cases h with
    | branch _ ht he =>
      obtain ht' | ⟨-, he'⟩ := (Option.orElse_eq_some _ _ _).1 htasks
      · exact within_fromLabel l rest hrest t ht tasks ht'
      · exact within_fromLabel l rest hrest e he tasks he'
  | loop init test next body =>
    cases h with
    | loop _ htest hnext hbody =>
      have hturn := List.forall_mem_cons.2 ⟨Within.turn htest hnext hbody, hrest⟩
      exact within_fromLabel l _ hturn body hbody tasks htasks
  | loopLast body test =>
    cases h with
    | loopLast hbody htest =>
      have hturn := List.forall_mem_cons.2 ⟨Within.turnLast hbody htest, hrest⟩
      exact within_fromLabel l _ hturn body hbody tasks htasks
  | label n c =>
    cases h with
    | label n hc =>
      simp only [fromLabel] at htasks
      split at htasks
      · cases htasks
        exact List.forall_mem_cons.2 ⟨.code hc, hrest⟩
      · exact within_fromLabel l rest hrest c hc tasks htasks

/-- The tasks from a label in one of the items. -/
theorem within_fromLabelList (l : String) (rest : List Task) (hrest : ∀ t ∈ rest, t.Within R)
    (items : List Code) (h : ∀ c ∈ items, c.Within R) :
    ∀ tasks ∈ fromLabelList l rest items, ∀ t ∈ tasks, t.Within R := by
  intro tasks htasks
  cases items with
  | nil => cases htasks
  | cons c items =>
    obtain ⟨hc, hitems⟩ := List.forall_mem_cons.1 h
    obtain hc' | ⟨-, hitems'⟩ := (Option.orElse_eq_some _ _ _).1 htasks
    · exact within_fromLabel l _ (within_items hitems hrest) c hc tasks hc'
    · exact within_fromLabelList l rest hrest items hitems tasks hitems'

end

/-- A jump out of the innermost loop leaves some of the tasks. -/
theorem within_dropWhile (h : ∀ t ∈ rest, t.Within R) (n : Nat) :
    ∀ t ∈ (rest.dropWhile (!·.isLoop)).drop n, t.Within R :=
  fun t ht => h t ((List.dropWhile_sublist _).subset (List.mem_of_mem_drop ht))

/-- What a step leaves: a returned value, or tasks that keep to the relation. -/
def LeavesWithin (R : Memory → Memory → Prop) (r : Option Scalar ⊕ List Task) : Prop :=
  ∀ tasks, r = .inr tasks → ∀ t ∈ tasks, t.Within R

theorem leavesWithin_tasks (h : ∀ t ∈ tasks, t.Within R) : LeavesWithin R (.inr tasks) := by
  rintro _ ⟨⟩
  exact h

/-- After a test a loop goes on with its body or is done. -/
theorem returns_turn {b : Bool} {c : Code} {turn : Task} (hc : c.Within R) (hturn : turn.Within R)
    (hrest : ∀ t ∈ rest, t.Within R) :
    Returns (LeavesWithin R)
      (if b then pure (.inr (code c :: turn :: rest)) else pure (.inr rest)) := by
  split
  · exact returns_pure (leavesWithin_tasks
      (List.forall_mem_cons.2 ⟨.code hc, List.forall_mem_cons.2 ⟨hturn, hrest⟩⟩))
  · exact returns_pure (leavesWithin_tasks hrest)

/-- The tasks that one step leaves keep to the relation. -/
theorem returns_step (hbody : body.Within R) (h : ∀ t ∈ tasks, t.Within R) :
    Returns (LeavesWithin R) (step body tasks) := by
  have hnext {tasks' : List Task} (h' : ∀ t ∈ tasks', t.Within R) :
      Returns (LeavesWithin R) (pure (.inr tasks')) :=
    returns_pure (leavesWithin_tasks h')
  have hdone (v : Option Scalar) : Returns (LeavesWithin R) (pure (.inl v)) :=
    returns_pure fun _ heq => by cases heq
  cases tasks with
  | nil => exact hdone none
  | cons t rest =>
    obtain ⟨ht, hrest⟩ := List.forall_mem_cons.1 h
    have hcode {c : Code} (hc : c.Within R) : ∀ t ∈ code c :: rest, t.Within R :=
      List.forall_mem_cons.2 ⟨.code hc, hrest⟩
    cases ht with
    | code hc =>
      cases hc with
      | act hrun => exact returns_bind fun _ => hnext hrest
      | block hitems => exact hnext (within_items hitems hrest)
      | branch htest ht he =>
        refine returns_bind fun b => ?_
        split
        · exact hnext (hcode ht)
        · exact hnext (hcode he)
      | loop hinit htest hturn hc =>
        exact returns_bind fun _ => returns_bind fun b =>
          returns_turn hc (.turn htest hturn hc) hrest
      | loopLast hc htest =>
        exact hnext (List.forall_mem_cons.2
          ⟨.code hc, List.forall_mem_cons.2 ⟨.turnLast hc htest, hrest⟩⟩)
      | ret hvalue => exact returns_bind fun v => hdone v
      | brk => exact hnext (within_dropWhile hrest 1)
      | cont => exact hnext (within_dropWhile hrest 0)
      | goto l =>
        -- What follows a label is made of parts of the body.
        simp only [step]
        split
        · next tasks' htasks =>
          exact hnext (within_fromLabel l [] (List.forall_mem_nil _) body hbody tasks' htasks)
        · exact returns_stuck
      | label n hc => exact hnext (hcode hc)
    | turn htest hturn hc =>
      exact returns_bind fun _ => returns_bind fun b =>
        returns_turn hc (.turn htest hturn hc) hrest
    | turnLast hc htest => exact returns_bind fun b => returns_turn hc (.turnLast hc htest) hrest

variable [IsPreorder Memory R]

/-- One step of the machine. -/
theorem step_within (h : ∀ t ∈ tasks, t.Within R) : (step body tasks).Within R := by
  have hite {r r' : Option Scalar ⊕ List Task} (b : Bool) :
      (if b then pure r else pure r' : Action _).Within R := by
    split
    · exact (quiet_pure r).within
    · exact (quiet_pure r').within
  cases tasks with
  | nil => exact (quiet_pure _).within
  | cons t rest =>
    cases List.forall_mem_cons.1 h |>.1 with
    | code hc =>
      cases hc with
      | act hrun => exact hrun.bind fun _ => (quiet_pure _).within
      | branch htest => exact htest.bind hite
      | loop hinit htest => exact hinit.bind fun _ => htest.bind hite
      | ret hvalue => exact hvalue.bind fun _ => (quiet_pure _).within
      | goto l =>
        simp only [step]
        split
        · exact (quiet_pure _).within
        · exact quiet_stuck.within
      | _ => exact (quiet_pure _).within
    | turn htest hnext => exact hnext.bind fun _ => htest.bind hite
    | turnLast _ htest => exact htest.bind hite

/-- Runs of the machine. -/
theorem run_within (hbody : body.Within R) (fuel : Nat) (h : ∀ t ∈ tasks, t.Within R) :
    (run body fuel tasks).Within R := by
  induction fuel generalizing tasks with
  | zero => exact quiet_stuck.within
  | succ fuel ih =>
    refine (returns_step hbody h).bind_within (step_within h) fun r hr => ?_
    cases r with
    | inl v => exact (quiet_pure v).within
    | inr tasks => exact ih (hr tasks rfl)

end Task

/-! ### Declarations -/

/-- The memories agree but on the variables from a number on. -/
abbrev Memory.AgreeBelow (base : Nat) : Memory → Memory → Prop :=
  AgreeOff fun place => place.isFrom base

/-- Only variables from a number on are written to, and only functions with the given names are
called. -/
abbrev Expr.WritesFrom (base : Nat) (names : List String) (ctx : Context) (e : Expr) : Prop :=
  e.IsWithin (fun place => place.isFrom base) names ctx

/-- Calls of the functions with the given names keep the variables before a number. -/
def Calls.KeepBelow (base : Nat) (names : List String) (calls : Calls) : Prop :=
  ∀ f ∈ names, ∀ args, (calls f args).Within (Memory.AgreeBelow base)

theorem Calls.KeepBelow.eval {base : Nat} {names : List String} {calls : Calls}
    (h : calls.KeepBelow base names) (rules : Rules) (ctx : Context) {e : Expr}
    (he : e.WritesFrom base names ctx) :
    (e.eval rules calls ctx).Within (Memory.AgreeBelow base) :=
  Expr.eval_within h (fun _ _ => id) rules ctx e he

/-- A variable that is declared in a body and is not external is kept at the next place. -/
theorem Context.place_declare {ctx : Context} {d : Decl} {b : Binding}
    (hb : d.name.bind (ctx.declare d).binding? = some b)
    (h : (d.isFunction || d.isExternal) = false) : b.place = .slot ctx.slots := by
  obtain ⟨hfunction, hexternal⟩ := Bool.or_eq_false_iff.1 h
  obtain ⟨name, hname, hb⟩ := Option.bind_eq_some_iff.1 hb
  simp only [declare, hname, Signature.ofDecl?_eq_none hfunction, hexternal, bind, binding?,
    List.lookup_cons_self, Bool.false_eq_true, if_false] at hb
  exact Option.some.inj hb ▸ rfl

/-- The places that are taken stay taken. -/
theorem Context.slots_le_declare (ctx : Context) (d : Decl) :
    ctx.slots ≤ (ctx.declare d).slots := by
  unfold declare
  split
  · exact le_rfl
  · split
    · exact le_rfl
    · split
      · exact le_rfl
      · exact Nat.le_succ _

theorem Context.isKept_slots (base : Nat) : IsKept fun _ ctx => base ≤ ctx.slots where
  declare d h := h.trans (slots_le_declare _ d)
  leave _ h := h

namespace Decl

variable {base : Nat} {names : List String} {rules : Rules} {calls : Calls} {ctx : Context}
  {d : Decl} {b : Binding} (hcalls : calls.KeepBelow base names)

theorem storeCodes_within (hb : b.place.isFrom base) (i : Nat) (codes : List Nat) :
    (storeCodes b i codes).Within (Memory.AgreeBelow base) := by
  induction codes generalizing i with
  | nil => exact (quiet_pure ()).within
  | cons code rest ih =>
    rw [storeCodes]
    exact (within_write hb _).bind fun _ => ih (i + 1)

include hcalls

theorem storeInit_within {c : Cell} (hc : c.place.isFrom base) {e : Expr}
    (h : e.WritesFrom base names ctx) :
    (storeInit rules calls ctx c e).Within (Memory.AgreeBelow base) := by
  induction e using storeInit.induct with
  | case1 e coord ih =>
    rw [storeInit]
    exact ih ((Expr.everywhere_initList.1 h).2 e (List.mem_singleton_self e))
  | case2 e hnested =>
    rw [storeInit]
    · exact (hcalls.eval rules ctx h).bind fun v =>
        (within_store (fun _ _ => id) rules hc v).bind fun _ => (quiet_pure ()).within
    · exact hnested

theorem storeItems_within (hb : b.place.isFrom base) (i : Nat) {items : List Expr}
    (h : ∀ e ∈ items, e.WritesFrom base names ctx) :
    (storeItems rules calls ctx b i items).Within (Memory.AgreeBelow base) := by
  induction items generalizing i with
  | nil => exact (quiet_pure ()).within
  | cons e rest ih =>
    obtain ⟨he, hrest⟩ := List.forall_mem_cons.1 h
    rw [storeItems]
    exact (storeInit_within hcalls hb he).bind fun _ => ih (i + 1) hrest

/-- Giving a variable its first value changes the place of the variable only. -/
theorem runInit_within (hb : b.place.isFrom base)
    (h : ∀ e ∈ d.initExprs, e.WritesFrom base names ctx) :
    (d.runInit rules calls ctx b).Within (Memory.AgreeBelow base) := by
  unfold runInit
  unfold initExprs at h
  split
  · split
    · exact within_zero hb
    · exact within_erase hb
  · next items c hinit =>
    simp only [hinit] at h
    split
    · exact (within_zero hb).bind fun _ => storeItems_within hcalls hb 0 h
    · refine storeInit_within hcalls hb (Expr.everywhere_initList.2 ⟨⟨?_, rfl⟩, h⟩)
      rintro target ⟨⟩
  · next e hlist hinit =>
    have he : e.WritesFrom base names ctx := by
      simp only [hinit] at h
      exact h e (List.mem_singleton_self e)
    split
    · split
      · exact (within_zero hb).bind fun _ => storeCodes_within hb 0 _
      · exact quiet_stuck.within
    · exact storeInit_within hcalls hb he

theorem evalSize_within (h : ∀ e ∈ d.size?, e.WritesFrom base names ctx) :
    (d.evalSize rules calls ctx).Within (Memory.AgreeBelow base) := by
  unfold evalSize
  split
  · exact (quiet_pure ()).within
  · next e he =>
    exact (hcalls.eval rules ctx (h e he)).bind fun v =>
      (quiet_ofOption _).within.bind fun _ => (quiet_pure ()).within

/-- A declaration that is not static changes the place of its variable and what its expressions
write to. -/
theorem run_within (hbase : base ≤ ctx.slots) (hstatic : d.isStatic = false)
    (h : ∀ x ∈ d.exprsIn ctx, x.2.WritesFrom base names x.1) :
    (d.run rules calls ctx).Within (Memory.AgreeBelow base) := by
  simp only [exprsIn, List.forall_mem_append, List.forall_mem_map, Option.mem_toList] at h
  obtain ⟨hsize, hinits⟩ := h
  unfold run
  split
  · exact (quiet_pure ()).within
  · next b hb =>
    split
    · exact (quiet_pure ()).within
    · next hvariable =>
      have hplace : b.place.isFrom base := by
        rw [Context.place_declare hb (Bool.not_eq_true _ ▸ hvariable)]
        exact decide_eq_true hbase
      refine (evalSize_within hcalls hsize).bind fun _ => ?_
      rw [hstatic]
      exact runInit_within hcalls hplace hinits

theorem runList_within {ds : List Decl} (hbase : base ≤ ctx.slots)
    (hstatic : ∀ d ∈ ds, d.isStatic = false)
    (h : ∀ x ∈ exprsInList ctx ds, x.2.WritesFrom base names x.1) :
    (runList rules calls ctx ds).Within (Memory.AgreeBelow base) := by
  induction ds generalizing ctx with
  | nil => exact (quiet_pure ()).within
  | cons d rest ih =>
    obtain ⟨hd, hrest⟩ := List.forall_mem_cons.1 hstatic
    obtain ⟨hexprs, hexprs'⟩ := List.forall_mem_append.1 h
    rw [runList]
    exact (run_within hcalls hbase hd hexprs).bind fun _ =>
      ih (hbase.trans (ctx.slots_le_declare d)) hrest hexprs'

end Decl

/-! ### Statements -/

/-- No declaration in the statements is static. -/
def Stmt.WithoutStatics (stmts : List Stmt) : Prop :=
  ∀ s ∈ stmts, ∀ d ∈ s.ownDecls, d.isStatic = false

section Statements

variable {base : Nat} {names : List String} {rules : Rules} {calls : Calls} {ctx : Context}
  (hcalls : calls.KeepBelow base names)
include hcalls

theorem ForInit.run_within (hbase : base ≤ ctx.slots) {init : Option ForInit}
    (hstatic : ∀ d ∈ init.toList.flatMap ForInit.declList, d.isStatic = false)
    (h : ∀ x ∈ ForInit.exprsIn ctx init, x.2.WritesFrom base names x.1) :
    (ForInit.run rules calls ctx init).Within (Memory.AgreeBelow base) := by
  match init with
  | none => exact (quiet_pure ()).within
  | some (.decls ds) =>
    exact Decl.runList_within hcalls hbase (by simpa [ForInit.declList] using hstatic) h
  | some (.expr e) =>
    have he := h (ctx, e) (List.mem_singleton_self _)
    exact (hcalls.eval rules ctx he).bind fun _ => (quiet_pure ()).within

namespace Stmt

theorem evalTest_within {e : Expr} (h : e.WritesFrom base names ctx) :
    (e.evalTest rules calls ctx).Within (Memory.AgreeBelow base) :=
  (hcalls.eval rules ctx h).bind fun _ => (quiet_ofOption _).within

theorem evalForTest_within {cond : Option Expr} (h : ∀ e ∈ cond, e.WritesFrom base names ctx) :
    (evalForTest rules calls ctx cond).Within (Memory.AgreeBelow base) := by
  cases cond with
  | none => exact (quiet_pure true).within
  | some e => exact evalTest_within hcalls (h e rfl)

theorem evalNext_within {next : Option Expr} (h : ∀ e ∈ next, e.WritesFrom base names ctx) :
    (evalNext rules calls ctx next).Within (Memory.AgreeBelow base) := by
  cases next with
  | none => exact (quiet_pure ()).within
  | some e => exact (hcalls.eval rules ctx (h e rfl)).bind fun _ => (quiet_pure ()).within

theorem evalReturn_within (result : ScalarType) {value : Option Expr}
    (h : ∀ e ∈ value, e.WritesFrom base names ctx) :
    (evalReturn rules calls result ctx value).Within (Memory.AgreeBelow base) := by
  cases value with
  | none => exact (quiet_pure none).within
  | some e =>
    exact (hcalls.eval rules ctx (h e rfl)).bind fun v =>
      (quiet_ofOption _).within.bind fun w => (quiet_pure (some w)).within

omit hcalls

mutual

/-- The code of a statement whose writes are to variables from a number on. -/
theorem code_within (hcalls : calls.KeepBelow base names) (result : ScalarType) (s : Stmt)
    (ctx : Context) (hbase : base ≤ ctx.slots) (hstatic : WithoutStatics s.substmts)
    (h : ∀ x ∈ s.exprsIn ctx, x.2.WritesFrom base names x.1) :
    (s.code rules calls result ctx).Within (Memory.AgreeBelow base) := by
  have hinner : WithoutStatics s.substmts.tail :=
    fun t ht => hstatic t (List.mem_of_mem_tail ht)
  cases s with
  | decl d c =>
    have hd : d.isStatic = false :=
      hstatic (.decl d c) (by simp [substmts]) d (by simp [ownDecls])
    exact .act (Decl.run_within hcalls hbase hd h)
  | block items b c => exact .block (codeList_within hcalls result items ctx hbase hinner h)
  | expr e c =>
    have he := h (ctx, e) (List.mem_singleton_self _)
    exact .act ((hcalls.eval rules ctx he).bind fun _ => (quiet_pure ()).within)
  | ifThen p t c =>
    obtain ⟨hp, ht⟩ := List.forall_mem_cons.1 h
    exact .branch (evalTest_within hcalls hp) (code_within hcalls result t ctx hbase hinner ht)
      (.act (quiet_pure ()).within)
  | ifElse p t e c =>
    obtain ⟨hp, hbranches⟩ := List.forall_mem_cons.1 h
    obtain ⟨ht, he⟩ := List.forall_mem_append.1 hbranches
    obtain ⟨hstatict, hstatice⟩ := List.forall_mem_append.1 hinner
    -- What the first branch declares takes slots after those below the base.
    have hafter := (exprsIn_related (Context.isKept_slots base) t ctx ctx hbase).2
    exact .branch (evalTest_within hcalls hp) (code_within hcalls result t ctx hbase hstatict ht)
      (code_within hcalls result e _ hafter hstatice he)
  | forLoop init cond next body c =>
    simp only [exprsIn, List.map_append, List.forall_mem_append, List.forall_mem_map] at h
    obtain ⟨⟨hinit, hcond, hnext⟩, hbody⟩ := h
    have hafter := (ForInit.exprsIn_related (Context.isKept_slots base) init ctx ctx hbase).2
    have hrun : (ForInit.run rules calls ctx init).Within (Memory.AgreeBelow base) :=
      ForInit.run_within hcalls hbase
        (hstatic (.forLoop init cond next body c) (by simp [substmts])) hinit
    exact .loop hrun (evalForTest_within hcalls (by simpa using hcond))
      (evalNext_within hcalls (by simpa using hnext))
      (code_within hcalls result body _ hafter hinner hbody)
  | whileLoop p body c =>
    obtain ⟨hp, hbody⟩ := List.forall_mem_cons.1 h
    exact .loop (quiet_pure ()).within (evalTest_within hcalls hp) (quiet_pure ()).within
      (code_within hcalls result body ctx hbase hinner hbody)
  | doWhile p body c =>
    obtain ⟨hp, hbody⟩ := List.forall_mem_cons.1 h
    exact .loopLast (code_within hcalls result body ctx hbase hinner hbody)
      (evalTest_within hcalls hp)
  | ret value c => exact .ret (evalReturn_within hcalls result (by simpa [exprsIn] using h))
  | label n s c => exact .label n (code_within hcalls result s ctx hbase hinner h)
  | brk c => exact .brk
  | cont c => exact .cont
  | goto l c => exact .goto l
  | empty c => exact .act (quiet_pure ()).within

/-- The code of a body whose writes are to variables from a number on. -/
theorem codeList_within (hcalls : calls.KeepBelow base names) (result : ScalarType)
    (items : List Stmt) (ctx : Context) (hbase : base ≤ ctx.slots)
    (hstatic : WithoutStatics (substmtsList items))
    (h : ∀ x ∈ exprsInList ctx items, x.2.WritesFrom base names x.1) :
    ∀ c ∈ codeList rules calls result ctx items, c.Within (Memory.AgreeBelow base) := by
  cases items with
  | nil => exact List.forall_mem_nil _
  | cons s rest =>
    obtain ⟨hs, hrest⟩ := List.forall_mem_append.1 h
    obtain ⟨hstatics, hstaticrest⟩ := List.forall_mem_append.1 hstatic
    have hafter := (exprsIn_related (Context.isKept_slots base) s ctx ctx hbase).2
    exact List.forall_mem_cons.2 ⟨code_within hcalls result s ctx hbase hstatics hs,
      codeList_within hcalls result rest _ hafter hstaticrest hrest⟩

end

end Stmt

end Statements

end MathKernel
