import MathKernel.Proofs.Normalize.LoopNames
import MathKernel.Proofs.Normalize.Recursion

/-!
# Counters of the loops of a unit

The pool of counters lasts for all loops of a unit or the unit is refused. With `i` of its names
issued, the loops other than `for` get the names number `i`, `i + 1` and so on in the order in
which they are written, outer loops before inner ones and functions in order, so no two of them
share a counter. Nothing else changes: a `for` loop that was there keeps its clauses.

## Main definitions

* `Stmt.openLoops`, `SourceUnit.openLoops` — the loops other than `for`, outer ones first
* `Counters` — loops with their counters
* `Stmt.HasItems` — the statements of a loop body
* `Stmt.CountedAs`, `Item.AreCountedAs` — code with its loops counted by given counters

## Main results

* `Stmt.countedAs_bounded` — the loops of a statement get counters in order
* `SourceUnit.boundLoops_numbered` — the same for a unit, and when the pool does not suffice
-/

namespace MathKernel

/-- Loops with the names of their counters. -/
abbrev Counters := List (Stmt × String)

/-- The loops with counters in order from the `i`-th on. -/
def Counters.numbered (counter : Nat → String) (i : Nat) (loops : List Stmt) : Counters :=
  (loops.zipIdx i).map fun (loop, j) => (loop, counter j)

theorem Counters.numbered_append (counter : Nat → String) (i : Nat) (loops others : List Stmt) :
    numbered counter i (loops ++ others) =
      numbered counter i loops ++ numbered counter (i + loops.length) others := by
  rw [numbered, List.zipIdx_append, List.map_append, numbered, numbered]

/-! ### Statements -/

namespace Stmt

/-- The loops other than `for` in a statement, outer loops first. -/
def openLoops (s : Stmt) : List Stmt :=
  s.substmts.filter isOpenLoop

/-- The loops other than `for` in statements, outer loops first. -/
def openLoopsList (items : List Stmt) : List Stmt :=
  (substmtsList items).filter isOpenLoop

/-- The statements of a loop body: those in its braces, none for the empty statement, and any other
statement alone. -/
inductive HasItems : Stmt → List Stmt → Prop
  | block {items : List Stmt} {b c : Coord} : HasItems (block items b c) items
  | empty {c : Coord} : HasItems (empty c) []
  | lone {s : Stmt} (hblock : ∀ items b c, s ≠ block items b c) (hempty : ∀ c, s ≠ empty c) :
      HasItems s [s]

theorem hasItems_bodyItems (s : Stmt) : s.HasItems s.bodyItems := by
  cases s with
  | block items b c => exact .block
  | empty c => exact .empty
  | _ => exact .lone nofun nofun

mutual

/-- The second statement is the first one with each loop other than `for` turned into the loop
`for (int k = 0; k < 1000; k++)`, which it leaves where the condition fails. The loops that were
met are listed with their counters, outer loops first. -/
inductive CountedAs : Stmt → Counters → Stmt → Prop
  | leaf {s : Stmt} (h : s.substmts = [s]) : CountedAs s [] s
  | block {items items' : List Stmt} {met : Counters} {b c : Coord}
      (h : AreCountedAs items met items') : CountedAs (block items b c) met (block items' b c)
  | ifThen {p : Expr} {t t' : Stmt} {met : Counters} {c : Coord}
      (h : CountedAs t met t') : CountedAs (ifThen p t c) met (ifThen p t' c)
  | ifElse {p : Expr} {t t' e e' : Stmt} {met others : Counters} {c : Coord}
      (ht : CountedAs t met t') (he : CountedAs e others e') :
      CountedAs (ifElse p t e c) (met ++ others) (ifElse p t' e' c)
  | forLoop {init : Option ForInit} {cond next : Option Expr} {body body' : Stmt} {met : Counters}
      {c : Coord} (h : CountedAs body met body') :
      CountedAs (forLoop init cond next body c) met (forLoop init cond next body' c)
  | whileLoop {p : Expr} {body body' : Stmt} {items : List Stmt} {k : String} {met : Counters}
      {c : Coord} (h : CountedAs body met body') (hitems : body'.HasItems items) :
      CountedAs (whileLoop p body c) ((whileLoop p body c, k) :: met)
        (forLoop
          (some (.decls [
            { name := some k, quals := [], storage := [],
              type := .element
                { declName := some k, quals := [], names := ["int"], scalar := .int, coord := none }
              init := some (.literal ⟨.int, "0"⟩ none), coord := none }]))
          (some (.binary .lt (.id k none) (.literal ⟨.int, "1000"⟩ none) none))
          (some (.unary .postInc (.id k none) none))
          (block (ifThen (.unary .not p none) (brk none) none :: items) none none) c)
  | doWhile {p : Expr} {body body' : Stmt} {items : List Stmt} {k : String} {met : Counters}
      {c : Coord} (h : CountedAs body met body') (hitems : body'.HasItems items) :
      CountedAs (doWhile p body c) ((doWhile p body c, k) :: met)
        (forLoop
          (some (.decls [
            { name := some k, quals := [], storage := [],
              type := .element
                { declName := some k, quals := [], names := ["int"], scalar := .int, coord := none }
              init := some (.literal ⟨.int, "0"⟩ none), coord := none }]))
          (some (.binary .lt (.id k none) (.literal ⟨.int, "1000"⟩ none) none))
          (some (.unary .postInc (.id k none) none))
          (block (items ++ [ifThen (.unary .not p none) (brk none) none]) none none) c)
  | label {n : String} {s s' : Stmt} {met : Counters} {c : Coord}
      (h : CountedAs s met s') : CountedAs (label n s c) met (label n s' c)

/-- The same for statements in order. -/
inductive AreCountedAs : List Stmt → Counters → List Stmt → Prop
  | nil : AreCountedAs [] [] []
  | cons {s s' : Stmt} {rest rest' : List Stmt} {met others : Counters}
      (h : CountedAs s met s') (hrest : AreCountedAs rest others rest') :
      AreCountedAs (s :: rest) (met ++ others) (s' :: rest')

end

theorem length_openLoops (s : Stmt) : s.openLoops.length = s.loopCount :=
  List.countP_eq_length_filter.symm

theorem length_openLoopsList (items : List Stmt) :
    (openLoopsList items).length = loopCountList items :=
  List.countP_eq_length_filter.symm

section Loops

variable (p : Expr) (s t e body : Stmt) (rest : List Stmt) (c : Coord)

theorem openLoops_ifElse : (ifElse p t e c).openLoops = t.openLoops ++ e.openLoops := by
  simp [openLoops, substmts, isOpenLoop]

theorem openLoops_whileLoop :
    (whileLoop p body c).openLoops = whileLoop p body c :: body.openLoops :=
  List.filter_cons_of_pos rfl

theorem openLoops_doWhile : (doWhile p body c).openLoops = doWhile p body c :: body.openLoops :=
  List.filter_cons_of_pos rfl

theorem openLoopsList_cons : openLoopsList (s :: rest) = s.openLoops ++ openLoopsList rest := by
  simp [openLoops, openLoopsList, substmtsList]

end Loops

open Counters

variable (counter : Nat → String)

mutual

/-- The loops of a statement get counters in order. -/
theorem countedAs_bounded (i : Nat) (s : Stmt) :
    s.CountedAs (numbered counter i s.openLoops) (s.bounded counter i) := by
  cases s with
  | block items b c => exact .block (areCountedAs_boundedList i items)
  | ifThen p t c => exact .ifThen (countedAs_bounded i t)
  | ifElse p t e c =>
    rw [openLoops_ifElse, numbered_append, length_openLoops]
    exact .ifElse (countedAs_bounded i t) (countedAs_bounded _ e)
  | forLoop init cond next body c => exact .forLoop (countedAs_bounded i body)
  | whileLoop p body c =>
    rw [openLoops_whileLoop]
    exact .whileLoop (countedAs_bounded (i + 1) body) (hasItems_bodyItems _)
  | doWhile p body c =>
    rw [openLoops_doWhile]
    exact .doWhile (countedAs_bounded (i + 1) body) (hasItems_bodyItems _)
  | label n s c => exact .label (countedAs_bounded i s)
  | decl | expr | ret | brk | cont | goto | empty => exact .leaf rfl

theorem areCountedAs_boundedList (i : Nat) (items : List Stmt) :
    AreCountedAs items (numbered counter i (openLoopsList items))
      (boundedList counter i items) := by
  cases items with
  | nil => exact .nil
  | cons s rest =>
    rw [openLoopsList_cons, numbered_append, length_openLoops]
    exact .cons (countedAs_bounded i s) (areCountedAs_boundedList _ rest)

end

/-! ### No loops are left -/

theorem loopCountList_append (items others : List Stmt) :
    loopCountList (items ++ others) = loopCountList items + loopCountList others := by
  induction items with
  | nil => exact (Nat.zero_add _).symm
  | cons s rest ih =>
    rw [List.cons_append, loopCountList_cons, loopCountList_cons, ih, Nat.add_assoc]

theorem loopCountList_bodyItems (s : Stmt) : loopCountList s.bodyItems = s.loopCount := by
  have hlone (s : Stmt) : loopCountList [s] = s.loopCount := loopCountList_cons s []
  cases s with
  | block | empty => rfl
  | _ => exact hlone _

theorem loopCount_countedLoop (k : String) (items : List Stmt) (c : Coord) :
    (countedLoop k items c).loopCount = loopCountList items :=
  rfl

mutual

theorem loopCount_bounded (i : Nat) (s : Stmt) : (s.bounded counter i).loopCount = 0 := by
  cases s with
  | block items b c => exact loopCountList_boundedList i items
  | ifThen p t c => exact loopCount_bounded i t
  | ifElse p t e c =>
    rw [bounded, loopCount_ifElse, loopCount_bounded i t, loopCount_bounded _ e]
  | forLoop init cond next body c => exact loopCount_bounded i body
  | whileLoop p body c =>
    have hguard : (exitUnless p).loopCount = 0 := rfl
    rw [bounded, loopCount_countedLoop, loopCountList_cons, hguard, loopCountList_bodyItems,
      loopCount_bounded (i + 1) body]
  | doWhile p body c =>
    have hguard : loopCountList [exitUnless p] = 0 := rfl
    rw [bounded, loopCount_countedLoop, loopCountList_append, loopCountList_bodyItems,
      loopCount_bounded (i + 1) body, hguard]
  | label n s c => exact loopCount_bounded i s
  | decl | expr | ret | brk | cont | goto | empty => rfl

theorem loopCountList_boundedList (i : Nat) (items : List Stmt) :
    loopCountList (boundedList counter i items) = 0 := by
  cases items with
  | nil => rfl
  | cons s rest =>
    rw [boundedList, loopCountList_cons, loopCount_bounded i s, loopCountList_boundedList _ rest]

end

end Stmt

/-! ### Units -/

namespace Item

/-- Items with their loops counted, functions in order. -/
inductive AreCountedAs : List Item → Counters → List Item → Prop
  | nil : AreCountedAs [] [] []
  | decl {d : Decl} {rest rest' : List Item} {met : Counters}
      (h : AreCountedAs rest met rest') : AreCountedAs (.decl d :: rest) met (.decl d :: rest')
  | func {f : FuncDef} {items : List Stmt} {rest rest' : List Item} {met others : Counters}
      (h : Stmt.AreCountedAs f.body.items met items) (hrest : AreCountedAs rest others rest') :
      AreCountedAs (.func f :: rest) (met ++ others)
        (.func { f with body := { f.body with items } } :: rest')

/-- The loops other than `for` in an item. -/
def openLoops : Item → List Stmt
  | decl _ => []
  | func f => Stmt.openLoopsList f.body.items

/-- The item with its loops bounded by counters from the `i`-th on. -/
def bounded (counter : Nat → String) (i : Nat) : Item → Item
  | decl d => decl d
  | func f =>
    func { f with body := { f.body with items := Stmt.boundedList counter i f.body.items } }

/-- The items with their loops bounded in order. -/
def boundedList (counter : Nat → String) (i : Nat) : List Item → List Item
  | [] => []
  | item :: rest => item.bounded counter i :: boundedList counter (i + item.openLoops.length) rest

open Stmt Stmt.Naming Counters

theorem boundLoops_eq_issue (item : Item) :
    item.boundLoops = issue item.openLoops.length fun name i => item.bounded name i := by
  cases item with
  | decl d => exact pure_eq_issue _
  | func f =>
    simp only [Item.boundLoops, mapBodyM, boundLoopsList_eq_issue, issue_bind_pure, openLoops,
      length_openLoopsList]
    rfl

/-- Bounding the loops of items takes a name for each. -/
theorem mapM_boundLoops_eq_issue (items : List Item) :
    items.mapM Item.boundLoops =
      issue (items.flatMap openLoops).length fun name i => boundedList name i items := by
  induction items with
  | nil => exact pure_eq_issue _
  | cons item rest ih =>
    rw [List.mapM_cons, boundLoops_eq_issue, ih]
    simp only [issue_bind_pure]
    rw [issue_bind, List.flatMap_cons, List.length_append]
    rfl

variable (counter : Nat → String)

theorem areCountedAs_boundedList (i : Nat) (items : List Item) :
    AreCountedAs items (numbered counter i (items.flatMap openLoops))
      (boundedList counter i items) := by
  induction items generalizing i with
  | nil => exact .nil
  | cons item rest ih =>
    rw [List.flatMap_cons, numbered_append]
    cases item with
    | decl d => exact .decl (ih i)
    | func f => exact .func (Stmt.areCountedAs_boundedList counter i f.body.items) (ih _)

theorem openLoops_boundedList (i : Nat) (items : List Item) :
    (boundedList counter i items).flatMap openLoops = [] := by
  induction items generalizing i with
  | nil => rfl
  | cons item rest ih =>
    have hitem : (item.bounded counter i).openLoops = [] := by
      cases item with
      | decl d => rfl
      | func f =>
        refine List.eq_nil_of_length_eq_zero ((length_openLoopsList _).trans ?_)
        exact Stmt.loopCountList_boundedList counter i f.body.items
    rw [boundedList, List.flatMap_cons, hitem, ih, List.append_nil]

end Item

/-- The loops other than `for` in the functions of a unit. -/
def SourceUnit.openLoops (u : SourceUnit) : List Stmt :=
  u.funcs.flatMap fun f => f.body.stmts.filter Stmt.isOpenLoop

theorem SourceUnit.openLoops_eq (u : SourceUnit) :
    u.openLoops = u.items.flatMap Item.openLoops := by
  obtain ⟨items, c⟩ := u
  induction items with
  | nil => rfl
  | cons item rest ih =>
    cases item with
    | decl d => exact ih
    | func f => exact congrArg (Stmt.openLoopsList f.body.items ++ ·) ih

theorem NamePool.name_injective (pool : NamePool) : Function.Injective pool.name := fun _ _ h =>
  toString_nat_injective ((String.append_right_inj _).1 h)

/-- Different loops have different counters. -/
theorem NamePool.nodup_numbered (pool : NamePool) (i : Nat) (loops : List Stmt) :
    ((Counters.numbered pool.name i loops).map Prod.snd).Nodup := by
  have hnames : (Counters.numbered pool.name i loops).map Prod.snd =
      (List.range' i loops.length).map pool.name := by
    rw [Counters.numbered, List.map_map, ← List.zipIdx_map_snd, List.map_map]
    rfl
  rw [hnames]
  exact List.Nodup.map pool.name_injective List.nodup_range'

/-- The pool suffices for the loops of a unit, or the unit is refused. If it suffices, no loop
other than `for` is left, and the loops have the next names in order, one for each. -/
theorem SourceUnit.boundLoops_numbered (pool : NamePool) (u : SourceUnit) :
    (pool.capacity - pool.next < u.openLoops.length ∧
      u.boundLoops pool = .error (.namePoolExhausted pool.capacity)) ∨
    (u.openLoops.length ≤ pool.capacity - pool.next ∧ ∃ items counters,
      u.boundLoops pool = .ok ({ u with items }, ⟨u.openLoops.length, u.openLoops.length, 0⟩,
        { pool with next := pool.next + u.openLoops.length }) ∧
      openLoops { u with items } = [] ∧ Item.AreCountedAs u.items counters items ∧
      counters = (u.openLoops.zipIdx pool.next).map
        (fun (loop, i) => (loop, pool.stem ++ toString i)) ∧
      (counters.map Prod.snd).Nodup) := by
  have hrun : (u.mapItemsM Item.boundLoops).run pool =
      Stmt.Naming.issue u.openLoops.length
        (fun name i => { u with items := Item.boundedList name i u.items }) pool := by
    rw [SourceUnit.mapItemsM, Item.mapM_boundLoops_eq_issue, Stmt.Naming.issue_bind_pure,
      openLoops_eq]
    rfl
  have hcounted := Item.areCountedAs_boundedList pool.name pool.next u.items
  have hleft := Item.openLoops_boundedList pool.name pool.next u.items
  rw [← openLoops_eq] at hcounted
  by_cases henough : u.openLoops.length ≤ pool.capacity - pool.next
  · refine .inr ⟨henough, _, _, ?_, (openLoops_eq _).trans hleft, hcounted, rfl,
      pool.nodup_numbered pool.next u.openLoops⟩
    -- A unit without loops asks for no names, whatever is left in the pool.
    have hpool : u.openLoops.length = 0 ∨ pool.next + u.openLoops.length ≤ pool.capacity := by
      omega
    simp only [SourceUnit.boundLoops, hrun, Stmt.Naming.issue, if_pos hpool]
    simp [bind, Except.bind, pure, Except.pure]
  · refine .inl ⟨by omega, ?_⟩
    have hpool : ¬ (u.openLoops.length = 0 ∨ pool.next + u.openLoops.length ≤ pool.capacity) := by
      omega
    simp only [SourceUnit.boundLoops, hrun, Stmt.Naming.issue, if_neg hpool]
    rfl

end MathKernel
