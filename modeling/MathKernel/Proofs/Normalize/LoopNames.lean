import MathKernel.Proofs.Normalize.Counting
import MathKernel.Proofs.Syntax.Fragments

/-!
# Which loop gets which counter

Loops take their counters from the pool in order, outer ones first. So what becomes of a statement
is known from the number of the first counter, and it needs as many names as it has loops other
than `for`.

## Main definitions

* `Stmt.loopCount` — the number of loops to be bounded
* `Stmt.bounded` — the statement with its loops bounded, counters numbered from a given one on
* `NamePool.name`, `Stmt.Naming.issue` — the names of a pool, and taking several of them

## Main results

* `Stmt.boundLoops_eq_issue` — bounding the loops of a statement takes a name for each of them
-/

namespace MathKernel

/-- The name with the given number. -/
def NamePool.name (pool : NamePool) (i : Nat) : String :=
  pool.stem ++ toString i

namespace Stmt

/-- The number of loops other than `for` in a statement. -/
def loopCount (s : Stmt) : Nat :=
  s.substmts.countP isOpenLoop

/-- The number of loops other than `for` in statements. -/
def loopCountList (items : List Stmt) : Nat :=
  (substmtsList items).countP isOpenLoop

mutual

/-- The statement with its loops bounded, outer loops first, by counters from the `i`-th on. -/
def bounded (counter : Nat → String) (i : Nat) : Stmt → Stmt
  | block items b c => block (boundedList counter i items) b c
  | ifThen p t c => ifThen p (t.bounded counter i) c
  | ifElse p t e c => ifElse p (t.bounded counter i) (e.bounded counter (i + t.loopCount)) c
  | forLoop init cond next body c => forLoop init cond next (body.bounded counter i) c
  | whileLoop p body c =>
    countedLoop (counter i) (exitUnless p :: (body.bounded counter (i + 1)).bodyItems) c
  | doWhile p body c =>
    countedLoop (counter i) ((body.bounded counter (i + 1)).bodyItems ++ [exitUnless p]) c
  | label n s c => label n (s.bounded counter i) c
  | decl d c => decl d c
  | expr e c => expr e c
  | ret v c => ret v c
  | brk c => brk c
  | cont c => cont c
  | goto l c => goto l c
  | empty c => empty c

/-- The statements with their loops bounded in order. -/
def boundedList (counter : Nat → String) (i : Nat) : List Stmt → List Stmt
  | [] => []
  | s :: rest => s.bounded counter i :: boundedList counter (i + s.loopCount) rest

end

section Counts

variable (p : Expr) (s t e body : Stmt) (rest : List Stmt) (c : Coord)

theorem loopCount_ifElse : (ifElse p t e c).loopCount = t.loopCount + e.loopCount := by
  simp [loopCount, substmts, isOpenLoop]

theorem loopCount_whileLoop : (whileLoop p body c).loopCount = 1 + body.loopCount := by
  rw [loopCount, substmts, List.countP_cons_of_pos rfl, Nat.add_comm]
  rfl

theorem loopCount_doWhile : (doWhile p body c).loopCount = 1 + body.loopCount := by
  rw [loopCount, substmts, List.countP_cons_of_pos rfl, Nat.add_comm]
  rfl

theorem loopCountList_cons : loopCountList (s :: rest) = s.loopCount + loopCountList rest := by
  simp [loopCount, loopCountList, substmtsList]

end Counts

/-! ### Taking names -/

/-- Take `n` names for a value that depends on the number of the first; without names to take
this never fails. -/
def Naming.issue {α : Type} (n : Nat) (f : (Nat → String) → Nat → α) : Naming α :=
  fun pool =>
    if n = 0 ∨ pool.next + n ≤ pool.capacity then
      .ok (f pool.name pool.next, { pool with next := pool.next + n })
    else .error (.namePoolExhausted pool.capacity)

namespace Naming

variable {α β : Type}

theorem pure_eq_issue (a : α) : (pure a : Naming α) = issue 0 fun _ _ => a := by
  funext pool
  simp [issue]
  rfl

theorem takeName_eq_issue : takeName = issue 1 fun name i => name i := by
  funext pool
  refine (takeName_run pool).trans ?_
  rw [NamePool.fresh, issue]
  exact if_congr (by omega) rfl rfl

/-- Names that are taken one after the other are taken at once. -/
theorem issue_bind (m n : Nat) (f : (Nat → String) → Nat → α) (g : α → (Nat → String) → Nat → β) :
    (issue m f >>= fun a => issue n (g a)) =
      issue (m + n) fun name i => g (f name i) name (i + m) := by
  funext pool
  change (issue m f pool >>= fun r => issue n (g r.1) r.2) = _
  by_cases hm : m = 0 ∨ pool.next + m ≤ pool.capacity
  · have hfirst :
        issue m f pool = .ok (f pool.name pool.next, { pool with next := pool.next + m }) :=
      if_pos hm
    rw [hfirst]
    change issue n _ { pool with next := pool.next + m } = _
    -- What is left after the first names is enough for the others or not.
    have hiff : (n = 0 ∨ pool.next + (m + n) ≤ pool.capacity) ↔
        (m + n = 0 ∨ pool.next + (m + n) ≤ pool.capacity) := by omega
    simp only [issue, Nat.add_assoc, hiff]
    rfl
  · have hfirst : issue m f pool = .error (.namePoolExhausted pool.capacity) := if_neg hm
    have hall : ¬ (m + n = 0 ∨ pool.next + (m + n) ≤ pool.capacity) := by omega
    rw [hfirst]
    exact (if_neg hall).symm

/-- Rebuilding a value takes no name. -/
theorem issue_bind_pure (n : Nat) (f : (Nat → String) → Nat → α) (g : α → β) :
    (issue n f >>= fun a => pure (g a)) = issue n fun name i => g (f name i) := by
  simp only [pure_eq_issue]
  exact issue_bind n 0 f fun a _ _ => g a

end Naming

open Naming

mutual

/-- Bounding the loops of a statement takes a name for each. -/
theorem boundLoops_eq_issue (s : Stmt) :
    s.boundLoops = issue s.loopCount fun name i => s.bounded name i := by
  cases s with
  | block items b c =>
    rw [boundLoops, boundLoopsList_eq_issue items, issue_bind_pure]
    rfl
  | ifThen p t c =>
    rw [boundLoops, boundLoops_eq_issue t, issue_bind_pure]
    rfl
  | ifElse p t e c =>
    simp only [boundLoops, boundLoops_eq_issue t, boundLoops_eq_issue e, issue_bind_pure]
    rw [issue_bind, loopCount_ifElse]
    rfl
  | forLoop init cond next body c =>
    rw [boundLoops, boundLoops_eq_issue body, issue_bind_pure]
    rfl
  | whileLoop p body c =>
    simp only [boundLoops, boundLoops_eq_issue body, issue_bind_pure, takeName_eq_issue]
    rw [issue_bind, loopCount_whileLoop]
    rfl
  | doWhile p body c =>
    simp only [boundLoops, boundLoops_eq_issue body, issue_bind_pure, takeName_eq_issue]
    rw [issue_bind, loopCount_doWhile]
    rfl
  | label n s c =>
    rw [boundLoops, boundLoops_eq_issue s, issue_bind_pure]
    rfl
  | decl | expr | ret | brk | cont | goto | empty => exact pure_eq_issue _

theorem boundLoopsList_eq_issue (items : List Stmt) :
    boundLoopsList items = issue (loopCountList items) fun name i => boundedList name i items := by
  cases items with
  | nil => exact pure_eq_issue _
  | cons s rest =>
    simp only [boundLoopsList, boundLoops_eq_issue s, boundLoopsList_eq_issue rest,
      issue_bind_pure]
    rw [issue_bind, loopCountList_cons]
    rfl

end

/-- What bounding the loops gives, if the names suffice. -/
theorem boundLoops_eq_ok {s s' : Stmt} {pool pool' : NamePool}
    (h : s.boundLoops.run pool = .ok (s', pool')) :
    s' = s.bounded pool.name pool.next ∧ pool'.next = pool.next + s.loopCount := by
  rw [boundLoops_eq_issue] at h
  change (if _ then _ else _) = _ at h
  split_ifs at h
  obtain ⟨rfl, rfl⟩ := Prod.mk.inj (Except.ok.inj h)
  exact ⟨rfl, rfl⟩

end Stmt

end MathKernel
