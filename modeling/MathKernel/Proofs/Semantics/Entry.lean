import Mathlib.Order.Basic
import MathKernel.Proofs.Semantics.Traces

/-!
# Runs that start at a label

A jump enters a statement at a label that may stand anywhere inside it: in a branch whose
condition is not tested, or in the body of a loop, whose turn it joins half way. What comes after
is run as if the statement had been entered from the front.

## Main definitions

* `Behavior.resume` — the rest of a turn of a loop, then further turns
* `Stmt.entered` — the runs of a statement that start at a label inside it
* `Block.Completes`, `Block.TracesFrom` — runs of a body to its end, jumps to any label followed

## Main results

* `Behavior.loop_mono` and the lemmas around it — larger parts make larger behaviors
* `Stmt.entered_le` — what is run from a label, if all that carries it returns
* `Stmt.enteredList_of_mem_captures` — captured code that leaves its block is run from its label
-/

namespace MathKernel

/-! ### The order of behaviors -/

namespace Behavior

variable {A A' B B' : Behavior} {t : List Event} {o : Ending}

/-- Every run of the one is a run of the other. -/
instance : LE Behavior where
  le A B := ∀ t o, A t o → B t o

instance : Preorder Behavior where
  le_refl _ _ _ h := h
  le_trans _ _ _ hAB hBC t o h := hBC t o (hAB t o h)

theorem or_mono (hA : A ≤ A') (hB : B ≤ B') : A.or B ≤ A'.or B' :=
  fun t o h => h.imp (hA t o) (hB t o)

theorem andThen_mono (hA : A ≤ A') (hB : B ≤ B') : A.andThen B ≤ A'.andThen B' := by
  rintro t o (⟨h, ho⟩ | ⟨t₁, t₂, h₁, h₂, rfl⟩)
  · exact .inl ⟨hA t o h, ho⟩
  · exact .inr ⟨t₁, t₂, hA _ _ h₁, hB _ _ h₂, rfl⟩

theorem catchContinue_mono (hA : A ≤ A') : A.catchContinue ≤ A'.catchContinue := by
  rintro t o (⟨h, ho⟩ | ⟨h, ho⟩)
  · exact .inl ⟨hA t o h, ho⟩
  · exact .inr ⟨hA t _ h, ho⟩

theorem loop_mono (hA : A ≤ A') : loop A ≤ loop A' := by
  intro t o h
  induction h with
  | last h ho => exact .last (hA _ _ h) ho
  | again h _ ih => exact .again (hA _ _ h) ih

theorem turn_mono (hA : A ≤ A') {cond next : Option Expr} :
    turn cond A next ≤ turn cond A' next :=
  or_mono (andThen_mono le_rfl (andThen_mono (catchContinue_mono hA) le_rfl)) le_rfl

theorem turnLast_mono (hA : A ≤ A') {cond : Expr} : turnLast cond A ≤ turnLast cond A' :=
  andThen_mono (catchContinue_mono hA) le_rfl

/-! ### Behaviors that return -/

/-- What returns leaves nothing to what comes after it. -/
theorem andThen_le (hA : A ≤ B) (hB : B.Returns) {C : Behavior} : A.andThen C ≤ B := by
  rintro t o (⟨h, -⟩ | ⟨t₁, t₂, h, -⟩)
  · exact hA t o h
  · cases hB _ _ (hA _ _ h)

theorem catchContinue_le (hA : A ≤ B) (hB : B.Returns) : A.catchContinue ≤ B := by
  rintro t o (⟨h, -⟩ | ⟨h, -⟩)
  · exact hA t o h
  · cases hB _ _ (hA _ _ h)

end Behavior

/-- Whether control leaves everything around: by a return or a jump. -/
def Ending.Leaves (o : Ending) : Prop :=
  o = .returned ∨ ∃ l, o = .jumped l

namespace Ending.Leaves

variable {o : Ending}

theorem ne_done (h : o.Leaves) : o ≠ .done := by
  rintro rfl
  simp [Leaves] at h

theorem ne_continued (h : o.Leaves) : o ≠ .continued := by
  rintro rfl
  simp [Leaves] at h

theorem leaveLoop (h : o.Leaves) : o.leaveLoop = o := by
  rcases h with rfl | ⟨l, rfl⟩ <;> rfl

end Ending.Leaves

/-! ### Entering at a label -/

namespace Behavior

variable {A B turn : Behavior} {t : List Event} {o : Ending}

/-- No run at all. -/
def never : Behavior :=
  fun _ _ => False

/-- The rest of a turn of a loop, then turn after turn if it ends normally. -/
def resume (rest turn : Behavior) : Behavior :=
  fun t o => (∃ o', rest t o' ∧ o' ≠ .done ∧ o = o'.leaveLoop) ∨
    ∃ t₁ t₂, rest t₁ .done ∧ loop turn t₂ o ∧ t = t₁ ++ t₂

theorem resume_le (hA : A ≤ B) (hB : B.Returns) : resume A turn ≤ B := by
  rintro t o (⟨o', h, -, rfl⟩ | ⟨t₁, t₂, h, -⟩)
  · have ho := hB _ _ (hA _ _ h)
    subst ho
    exact hA _ _ h
  · cases hB _ _ (hA _ _ h)

theorem andThen_of_leaves (h : A t o) (ho : o.Leaves) : A.andThen B t o :=
  .inl ⟨h, ho.ne_done⟩

theorem catchContinue_of_leaves (h : A t o) (ho : o.Leaves) : A.catchContinue t o :=
  .inl ⟨h, ho.ne_continued⟩

theorem resume_of_leaves (h : A t o) (ho : o.Leaves) : resume A turn t o :=
  .inl ⟨o, h, ho.ne_done, ho.leaveLoop.symm⟩

end Behavior

namespace Stmt

open Behavior in
mutual

/-- The runs of a statement that start at a label inside it. Of several places that carry the
label each counts. -/
def entered (l : String) : Stmt → Behavior
  | block items _ _ => enteredList l items
  | ifThen _ t _ => t.entered l
  | ifElse _ t e _ => (t.entered l).or (e.entered l)
  | forLoop _ cond next body _ =>
    .resume ((body.entered l).catchContinue.andThen (only (next.toList.map .next) .done))
      (turn cond body.runs next)
  | whileLoop p body _ => .resume (body.entered l).catchContinue (turn (some p) body.runs none)
  | doWhile p body _ => .resume (turnLast p (body.entered l)) (turnLast p body.runs)
  | label n s _ => fun t o => (n = l ∧ s.runs t o) ∨ s.entered l t o
  | decl .. | expr .. | ret .. | brk _ | cont _ | goto .. | empty _ => never

/-- The runs of statements one after the other that start at a label inside one of them. -/
def enteredList (l : String) : List Stmt → Behavior
  | [] => never
  | s :: rest => ((s.entered l).andThen (runsList rest)).or (enteredList l rest)

end

variable {l : String} {K : String → Behavior} {t : List Event} {o : Ending}

mutual

/-- If the runs of everything that carries a label are among some that return, so are the runs
from the label. -/
theorem entered_le (hK : ∀ l, (K l).Returns) (s : Stmt)
    (h : ∀ x c, label l x c ∈ s.substmts → x.runs ≤ K l) : s.entered l ≤ K l := by
  cases s with
  | block items b c => exact enteredList_le hK items fun x c hx => h x c (List.mem_cons_of_mem _ hx)
  | ifThen p s c => exact entered_le hK s fun x c hx => h x c (List.mem_cons_of_mem _ hx)
  | ifElse p s e c =>
    rintro t o (hrun | hrun)
    · refine entered_le hK s (fun x c hx => h x c ?_) t o hrun
      exact List.mem_cons_of_mem _ (List.mem_append_left _ hx)
    · refine entered_le hK e (fun x c hx => h x c ?_) t o hrun
      exact List.mem_cons_of_mem _ (List.mem_append_right _ hx)
  | forLoop init cond next body c =>
    have hbody := entered_le hK body fun x c hx => h x c (List.mem_cons_of_mem _ hx)
    have hturn := Behavior.catchContinue_le hbody (hK l)
    exact Behavior.resume_le (Behavior.andThen_le hturn (hK l)) (hK l)
  | whileLoop p body c =>
    have hbody := entered_le hK body fun x c hx => h x c (List.mem_cons_of_mem _ hx)
    exact Behavior.resume_le (Behavior.catchContinue_le hbody (hK l)) (hK l)
  | doWhile p body c =>
    have hbody := entered_le hK body fun x c hx => h x c (List.mem_cons_of_mem _ hx)
    have hturn := Behavior.catchContinue_le hbody (hK l)
    exact Behavior.resume_le (Behavior.andThen_le hturn (hK l)) (hK l)
  | label n s c =>
    rintro t o (⟨rfl, hrun⟩ | hrun)
    · exact h s c List.mem_cons_self t o hrun
    · exact entered_le hK s (fun x c hx => h x c (List.mem_cons_of_mem _ hx)) t o hrun
  | decl _ _ | expr _ _ | ret _ _ | brk _ | cont _ | goto _ _ | empty _ =>
    intro t o hrun
    cases hrun

theorem enteredList_le (hK : ∀ l, (K l).Returns) (items : List Stmt)
    (h : ∀ x c, label l x c ∈ substmtsList items → x.runs ≤ K l) : enteredList l items ≤ K l := by
  cases items with
  | nil =>
    intro t o hrun
    cases hrun
  | cons first rest =>
    rintro t o (hrun | hrun)
    · have hfirst := entered_le hK first fun x c hx => h x c (List.mem_append_left _ hx)
      exact Behavior.andThen_le hfirst (hK l) t o hrun
    · exact enteredList_le hK rest (fun x c hx => h x c (List.mem_append_right _ hx)) t o hrun

end

/-! ### Captured code -/

/-- A statement is run from a label in front of it. -/
theorem runs_le_entered {s : Stmt} (h : l ∈ s.labels) : s.runs ≤ s.entered l := by
  intro t o hrun
  fun_induction labels s with
  | case1 n s c ih =>
    rcases List.mem_cons.1 h with rfl | h
    · exact .inl ⟨rfl, hrun⟩
    · exact .inr (ih h hrun)
  | case2 s hs => cases h

/-- Code captured for the label of an item is run from there, whichever way it ends. -/
theorem enteredList_of_mem_itemCaptures {items code : List Stmt}
    (h : (l, code) ∈ itemCaptures items) : runsList code ≤ enteredList l items := by
  induction items with
  | nil => cases h
  | cons s rest ih =>
    rcases List.mem_append.1 h with h | h
    · obtain ⟨name, hname, heq⟩ := List.mem_map.1 h
      cases heq
      rw [runsList_takeThroughReturn]
      intro t o hrun
      exact .inl (Behavior.andThen_mono (runs_le_entered hname) le_rfl t o hrun)
    · exact fun t o hrun => .inr (ih h t o hrun)

mutual

/-- Code captured for a label, if it leaves everything around it, is run from the label. -/
theorem entered_of_mem_captures (s : Stmt) {code : List Stmt} (h : (l, code) ∈ s.captures)
    (hrun : runsList code t o) (ho : o.Leaves) : s.entered l t o := by
  cases s with
  | block items b c =>
    refine enteredList_of_mem_captures items ?_ hrun ho
    exact List.mem_append.1 h
  | ifThen p s c => exact entered_of_mem_captures s h hrun ho
  | ifElse p s e c =>
    rcases List.mem_append.1 h with h | h
    · exact .inl (entered_of_mem_captures s h hrun ho)
    · exact .inr (entered_of_mem_captures e h hrun ho)
  | forLoop init cond next body c =>
    have hbody := entered_of_mem_captures body h hrun ho
    have hturn := Behavior.catchContinue_of_leaves hbody ho
    exact Behavior.resume_of_leaves (Behavior.andThen_of_leaves hturn ho) ho
  | whileLoop p body c =>
    have hbody := entered_of_mem_captures body h hrun ho
    exact Behavior.resume_of_leaves (Behavior.catchContinue_of_leaves hbody ho) ho
  | doWhile p body c =>
    have hbody := entered_of_mem_captures body h hrun ho
    have hturn := Behavior.catchContinue_of_leaves hbody ho
    exact Behavior.resume_of_leaves (Behavior.andThen_of_leaves hturn ho) ho
  | label n s c =>
    rcases List.mem_cons.1 h with heq | h
    · cases heq
      rcases hrun with ⟨hrun, -⟩ | ⟨t₁, t₂, -, ⟨-, hdone⟩, -⟩
      · exact .inl ⟨rfl, hrun⟩
      · exact absurd hdone ho.ne_done
    · exact .inr (entered_of_mem_captures s h hrun ho)
  | decl _ _ | expr _ _ | ret _ _ | brk _ | cont _ | goto _ _ | empty _ => cases h

theorem enteredList_of_mem_captures (items : List Stmt) {code : List Stmt}
    (h : (l, code) ∈ itemCaptures items ∨ (l, code) ∈ capturesList items)
    (hrun : runsList code t o) (ho : o.Leaves) : enteredList l items t o := by
  rcases h with h | h
  · exact enteredList_of_mem_itemCaptures h t o hrun
  cases items with
  | nil => cases h
  | cons first rest =>
    rcases List.mem_append.1 h with h | h
    · exact .inl (Behavior.andThen_of_leaves (entered_of_mem_captures first h hrun ho) ho)
    · exact .inr (enteredList_of_mem_captures rest (.inr h) hrun ho)

end

end Stmt

/-! ### Runs to the end of a body -/

/-- A run that starts as the behavior does, goes on at the label after each jump, wherever the
label stands in the body, and comes to a return or to the end of the body. -/
inductive Block.Completes (b : Block) : Behavior → List Event → Prop
  | finish {A : Behavior} {t : List Event} {o : Ending} (h : A t o)
      (ho : o = .done ∨ o = .returned) : Completes b A t
  | jump {A : Behavior} {t₁ t₂ : List Event} {l : String} (h : A t₁ (.jumped l))
      (rest : Completes b (Stmt.enteredList l b.items) t₂) : Completes b A (t₁ ++ t₂)

/-- The traces of a body from a label to the end of the body. -/
def Block.TracesFrom (b : Block) (l : String) (t : List Event) : Prop :=
  b.Completes (Stmt.enteredList l b.items) t

/-- The traces of a body from a label, as runs that return. -/
def Block.returning (b : Block) (l : String) : Behavior :=
  fun t o => o = .returned ∧ b.TracesFrom l t

theorem Block.returning_returns (b : Block) (l : String) : (b.returning l).Returns :=
  fun _ _ h => h.1

end MathKernel
