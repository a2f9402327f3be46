import Mathlib.Logic.Relation
import MathKernel.Normalize.Jumps

/-!
# Traces of a function body

What a body does, with the values left open: the simple statements it performs and the outcomes
of the conditions it tests, for every choice of outcomes. A statement ends normally, leaves or
repeats the loop around it, returns, or jumps to a label; a jump goes on at the item of the body
that carries the label.

## Main definitions

* `Event`, `Ending`, `Behavior` — a step of a run, how a run ends, a set of runs
* `Stmt.runs` — the behavior of a statement
* `Block.RunsFrom`, `Block.Traces` — runs of a body that follow its jumps
* `Behavior.follow` — what becomes of a behavior when its jumps are followed

## Main results

* `Behavior.follow_andThen`, `Behavior.follow_loop` — jumps are followed part by part
* `Stmt.runs_keepsLoop` — no run leaves or repeats a loop that is not there
* `Block.follow_fromLabel` — a body that returns after its labels, with its jumps followed
-/

namespace MathKernel

/-- One step of a run that can be observed. -/
inductive Event where
  | stmt (s : Stmt)
  | init (clause : ForInit)
  | next (e : Expr)
  | test (cond : Expr) (holds : Bool)

/-- How a run of a statement ends. -/
inductive Ending where
  | done
  | broke
  | continued
  | returned
  | jumped (label : String)
  deriving DecidableEq

/-- How a loop ends after a turn that does not end normally. -/
def Ending.leaveLoop : Ending → Ending
  | broke => done
  | o => o

/-- A set of runs, each the steps taken and the ending. -/
def Behavior := List Event → Ending → Prop

/-! ### Behaviors -/

namespace Behavior

variable {A B : Behavior} {t : List Event} {o : Ending}

@[ext]
theorem ext (h : ∀ t o, A t o ↔ B t o) : A = B := by
  funext t o
  exact propext (h t o)

/-- The one run with the given steps and ending. -/
def only (steps : List Event) (ending : Ending) : Behavior :=
  fun t o => t = steps ∧ o = ending

/-- One of two behaviors. -/
def or (A B : Behavior) : Behavior :=
  fun t o => A t o ∨ B t o

/-- Go on with `B` where `A` ends normally. -/
def andThen (A B : Behavior) : Behavior :=
  fun t o => (A t o ∧ o ≠ .done) ∨ ∃ t₁ t₂, A t₁ .done ∧ B t₂ o ∧ t = t₁ ++ t₂

/-- End the turn of a loop where the loop is to be repeated. -/
def catchContinue (A : Behavior) : Behavior :=
  fun t o => (A t o ∧ o ≠ .continued) ∨ (A t .continued ∧ o = .done)

/-- Turn after turn, up to one that does not end normally. -/
inductive loop (turn : Behavior) : Behavior
  | last {t : List Event} {o : Ending} (h : turn t o) (ho : o ≠ .done) : loop turn t o.leaveLoop
  | again {t₁ t₂ : List Event} {o : Ending} (h : turn t₁ .done) (rest : loop turn t₂ o) :
      loop turn (t₁ ++ t₂) o

/-- A condition that turns out as given; an absent one holds and shows nothing. -/
def check (cond : Option Expr) (holds : Bool) : Behavior :=
  fun t o => o = .done ∧
    match cond with
    | none => holds ∧ t = []
    | some e => t = [.test e holds]

/-- A turn of a loop that tests first: leave it if the condition fails, else run the body and
then the step. -/
def turn (cond : Option Expr) (body : Behavior) (next : Option Expr) : Behavior :=
  ((check cond true).andThen (body.catchContinue.andThen (only (next.toList.map .next) .done))).or
    ((check cond false).andThen (only [] .broke))

/-- A turn of a loop that tests last. -/
def turnLast (cond : Expr) (body : Behavior) : Behavior :=
  body.catchContinue.andThen
    ((check (some cond) true).or ((check (some cond) false).andThen (only [] .broke)))

end Behavior

/-! ### The behavior of statements -/

namespace Stmt

mutual

/-- The runs of a statement. -/
def runs : Stmt → Behavior
  | decl d c => .only [.stmt (decl d c)] .done
  | block items _ _ => runsList items
  | expr e c => .only [.stmt (expr e c)] .done
  | ifThen p t _ =>
    ((Behavior.check (some p) true).andThen t.runs).or (Behavior.check (some p) false)
  | ifElse p t e _ =>
    ((Behavior.check (some p) true).andThen t.runs).or
      ((Behavior.check (some p) false).andThen e.runs)
  | forLoop init cond next body _ =>
    (Behavior.only (init.toList.map .init) .done).andThen (.loop (.turn cond body.runs next))
  | whileLoop p body _ => .loop (.turn (some p) body.runs none)
  | doWhile p body _ => .loop (.turnLast p body.runs)
  | ret v c => .only [.stmt (ret v c)] .returned
  | brk c => .only [.stmt (brk c)] .broke
  | cont c => .only [.stmt (cont c)] .continued
  | goto l _ => .only [] (.jumped l)
  | label _ s _ => s.runs
  | empty c => .only [.stmt (empty c)] .done

/-- The runs of statements one after the other. -/
def runsList : List Stmt → Behavior
  | [] => .only [] .done
  | s :: rest => s.runs.andThen (runsList rest)

end

/-- The items from the first one that carries a label. -/
def afterLabel (l : String) : List Stmt → Option (List Stmt)
  | [] => none
  | s :: rest => if l ∈ s.labels then some (s :: rest) else afterLabel l rest

end Stmt

/-- A run that starts with the given items, goes on at the labelled item of the body after each
jump, and comes to a return or to the end of the body. -/
inductive Block.RunsFrom (b : Block) : List Stmt → List Event → Prop
  | finish {code : List Stmt} {t : List Event} {o : Ending} (h : Stmt.runsList code t o)
      (ho : o = .done ∨ o = .returned) : RunsFrom b code t
  | jump {code target : List Stmt} {t₁ t₂ : List Event} {l : String}
      (h : Stmt.runsList code t₁ (.jumped l)) (hl : Stmt.afterLabel l b.items = some target)
      (rest : RunsFrom b target t₂) : RunsFrom b code (t₁ ++ t₂)

/-- The traces of a body. -/
def Block.Traces (b : Block) (t : List Event) : Prop :=
  b.RunsFrom b.items t

/-! ### Following jumps -/

namespace Behavior

variable {A B : Behavior} {K : String → Behavior} {t : List Event} {o : Ending}

/-- Whether every run returns. -/
def Returns (A : Behavior) : Prop :=
  ∀ t o, A t o → o = .returned

/-- Go on with `K l` where `A` jumps to `l`. -/
def follow (K : String → Behavior) (A : Behavior) : Behavior :=
  fun t o => (A t o ∧ ∀ l, o ≠ .jumped l) ∨
    ∃ l t₁ t₂, A t₁ (.jumped l) ∧ K l t₂ o ∧ t = t₁ ++ t₂

/-- Following jumps adds no runs but returning ones. -/
theorem follow_iff (hK : ∀ l, (K l).Returns) (ho : o ≠ .returned) :
    follow K A t o ↔ A t o ∧ ∀ l, o ≠ .jumped l := by
  constructor
  · rintro (h | ⟨l, t₁, t₂, -, hl, -⟩)
    · exact h
    · exact absurd (hK l _ _ hl) ho
  · exact .inl

theorem not_jumped_follow (hK : ∀ l, (K l).Returns) (t : List Event) (l : String) :
    ¬ follow K A t (.jumped l) := by
  intro h
  exact ((follow_iff hK (by simp)).1 h).2 l rfl

theorem follow_only (h : ∀ l, o ≠ .jumped l) : follow K (only t o) = only t o := by
  ext t' o'
  constructor
  · rintro (⟨h', -⟩ | ⟨l, t₁, t₂, ⟨-, hl⟩, -⟩)
    · exact h'
    · exact absurd hl.symm (h l)
  · rintro ⟨rfl, rfl⟩
    exact .inl ⟨⟨rfl, rfl⟩, h⟩

theorem follow_jumped (l : String) :
    follow K (only [] (.jumped l)) = K l := by
  ext t o
  constructor
  · rintro (⟨⟨-, rfl⟩, h⟩ | ⟨l', t₁, t₂, ⟨rfl, hl⟩, h, rfl⟩)
    · exact absurd rfl (h l)
    · cases hl
      exact h
  · intro h
    exact .inr ⟨l, [], t, ⟨rfl, rfl⟩, h, rfl⟩

theorem follow_check {cond : Option Expr} {holds : Bool} :
    follow K (check cond holds) = check cond holds := by
  ext t o
  constructor
  · rintro (⟨h, -⟩ | ⟨l, t₁, t₂, ⟨hl, -⟩, -⟩)
    · exact h
    · cases hl
  · intro h
    exact .inl ⟨h, by simp [h.1]⟩

theorem follow_or : follow K (A.or B) = (follow K A).or (follow K B) := by
  ext t o
  simp only [follow, or]
  grind

theorem follow_andThen (hK : ∀ l, (K l).Returns) :
    follow K (A.andThen B) = (follow K A).andThen (follow K B) := by
  ext t o
  constructor
  · rintro (⟨⟨hA, ho⟩ | ⟨t₁, t₂, hA, hB, rfl⟩, hjump⟩ |
      ⟨l, t₁, t₂, ⟨hA, -⟩ | ⟨s₁, s₂, hA, hB, rfl⟩, hl, rfl⟩)
    · exact .inl ⟨.inl ⟨hA, hjump⟩, ho⟩
    · exact .inr ⟨t₁, t₂, .inl ⟨hA, by simp⟩, .inl ⟨hB, hjump⟩, rfl⟩
    · have ho : o ≠ .done := by simp [hK l _ _ hl]
      exact .inl ⟨.inr ⟨l, t₁, t₂, hA, hl, rfl⟩, ho⟩
    · refine .inr ⟨s₁, s₂ ++ t₂, .inl ⟨hA, by simp⟩, .inr ⟨l, s₂, t₂, hB, hl, rfl⟩, ?_⟩
      rw [List.append_assoc]
  · rintro (⟨⟨hA, hjump⟩ | ⟨l, t₁, t₂, hA, hl, rfl⟩, ho⟩ | ⟨t₁, t₂, hA, hB, rfl⟩)
    · exact .inl ⟨.inl ⟨hA, ho⟩, hjump⟩
    · exact .inr ⟨l, t₁, t₂, .inl ⟨hA, by simp⟩, hl, rfl⟩
    · obtain ⟨hA, -⟩ := (follow_iff hK (by simp)).1 hA
      rcases hB with ⟨hB, hjump⟩ | ⟨l, s₁, s₂, hB, hl, rfl⟩
      · exact .inl ⟨.inr ⟨t₁, t₂, hA, hB, rfl⟩, hjump⟩
      · refine .inr ⟨l, t₁ ++ s₁, s₂, .inr ⟨t₁, s₁, hA, hB, rfl⟩, hl, ?_⟩
        rw [List.append_assoc]

theorem follow_catchContinue (hK : ∀ l, (K l).Returns) :
    follow K A.catchContinue = (follow K A).catchContinue := by
  ext t o
  constructor
  · rintro (⟨⟨hA, ho⟩ | ⟨hA, rfl⟩, hjump⟩ | ⟨l, t₁, t₂, ⟨hA, -⟩ | ⟨-, hl⟩, hl', rfl⟩)
    · exact .inl ⟨.inl ⟨hA, hjump⟩, ho⟩
    · exact .inr ⟨.inl ⟨hA, by simp⟩, rfl⟩
    · have ho : o ≠ .continued := by simp [hK l _ _ hl']
      exact .inl ⟨.inr ⟨l, t₁, t₂, hA, hl', rfl⟩, ho⟩
    · cases hl
  · rintro (⟨⟨hA, hjump⟩ | ⟨l, t₁, t₂, hA, hl, rfl⟩, ho⟩ | ⟨hA, rfl⟩)
    · exact .inl ⟨.inl ⟨hA, ho⟩, hjump⟩
    · exact .inr ⟨l, t₁, t₂, .inl ⟨hA, by simp⟩, hl, rfl⟩
    · obtain ⟨hA, -⟩ := (follow_iff hK (by simp)).1 hA
      exact .inl ⟨.inr ⟨hA, rfl⟩, by simp⟩

/-- A run of a loop after it jumped is one of the loop whose turns follow the jump. -/
theorem loop_follow_of_jumped {l : String} {t' : List Event}
    (h : loop A t o) (ho : o = .jumped l) (hl : K l t' .returned) :
    loop (follow K A) (t ++ t') .returned := by
  induction h with
  | @last t o h hdone =>
    have hjump : o = .jumped l := by
      cases o <;> simp_all [Ending.leaveLoop]
    subst hjump
    exact .last (o := .returned) (.inr ⟨l, t, t', h, hl, rfl⟩) (by simp)
  | again h rest ih =>
    rw [List.append_assoc]
    exact .again (.inl ⟨h, by simp⟩) (ih ho)

theorem follow_loop (hK : ∀ l, (K l).Returns) : follow K (loop A) = loop (follow K A) := by
  ext t o
  constructor
  · rintro (⟨h, hjump⟩ | ⟨l, t₁, t₂, h, hl, rfl⟩)
    · induction h with
      | @last t o h ho =>
        refine .last (.inl ⟨h, fun l hl => hjump l ?_⟩) ho
        rw [hl]
        rfl
      | again h rest ih => exact .again (.inl ⟨h, by simp⟩) (ih hjump)
    · obtain rfl := hK l _ _ hl
      exact loop_follow_of_jumped h rfl hl
  · intro h
    induction h with
    | @last t o h ho =>
      rcases h with ⟨h, hjump⟩ | ⟨l, t₁, t₂, h, hl, rfl⟩
      · refine .inl ⟨.last h ho, fun l hl => hjump l ?_⟩
        cases o <;> simp_all [Ending.leaveLoop]
      · obtain rfl := hK l _ _ hl
        exact .inr ⟨l, t₁, t₂, .last h (by simp), hl, rfl⟩
    | again h rest ih =>
      obtain ⟨h, -⟩ := (follow_iff hK (by simp)).1 h
      rcases ih with ⟨ih, hjump⟩ | ⟨l, s₁, s₂, ih, hl, rfl⟩
      · exact .inl ⟨.again h ih, hjump⟩
      · refine .inr ⟨l, _ ++ s₁, s₂, .again h ih, hl, ?_⟩
        rw [List.append_assoc]

theorem follow_turn (hK : ∀ l, (K l).Returns) {cond next : Option Expr} :
    follow K (turn cond A next) = turn cond (follow K A) next := by
  simp only [turn, follow_or, follow_andThen hK, follow_catchContinue hK, follow_check]
  rw [follow_only (by simp), follow_only (by simp)]

theorem follow_turnLast (hK : ∀ l, (K l).Returns) {cond : Expr} :
    follow K (turnLast cond A) = turnLast cond (follow K A) := by
  simp only [turnLast, follow_or, follow_andThen hK, follow_catchContinue hK, follow_check]
  rw [follow_only (by simp)]

end Behavior

/-! ### Where runs can end -/

namespace Behavior

variable {A B : Behavior} {t : List Event} {o : Ending}

/-- Whether no run asks the loop around it to end or to go on. -/
def KeepsLoop (A : Behavior) : Prop :=
  ∀ t o, A t o → o ≠ .broke ∧ o ≠ .continued

theorem KeepsLoop.or (hA : A.KeepsLoop) (hB : B.KeepsLoop) : (A.or B).KeepsLoop :=
  fun t o h => h.elim (hA t o) (hB t o)

theorem KeepsLoop.andThen (hA : A.KeepsLoop) (hB : B.KeepsLoop) : (A.andThen B).KeepsLoop := by
  rintro t o (⟨h, -⟩ | ⟨t₁, t₂, -, h, -⟩)
  · exact hA t o h
  · exact hB t₂ o h

theorem keepsLoop_only (h : o ≠ .broke ∧ o ≠ .continued) : (only t o).KeepsLoop := by
  rintro _ _ ⟨rfl, rfl⟩
  exact h

theorem keepsLoop_check {cond : Option Expr} {holds : Bool} : (check cond holds).KeepsLoop := by
  rintro t o ⟨rfl, -⟩
  simp

/-- A loop takes every end and repetition of its turns for its own. -/
theorem keepsLoop_loop (h : ∀ t, ¬ A t .continued) : (loop A).KeepsLoop := by
  intro t o hloop
  induction hloop with
  | @last t o hturn ho =>
    have hcont : o ≠ .continued := by
      rintro rfl
      exact h t hturn
    cases o <;> simp_all [Ending.leaveLoop]
  | again _ _ ih => exact ih

theorem not_continued_andThen (hA : ∀ t, ¬ A t .continued) (hB : ∀ t, ¬ B t .continued) :
    ∀ t, ¬ A.andThen B t .continued := by
  rintro t (⟨h, -⟩ | ⟨t₁, t₂, -, h, -⟩)
  · exact hA t h
  · exact hB t₂ h

theorem not_continued_catchContinue (t : List Event) : ¬ A.catchContinue t .continued := by
  rintro (⟨-, h⟩ | ⟨-, h⟩)
  · exact h rfl
  · cases h

theorem not_continued_turn {cond next : Option Expr} (t : List Event) :
    ¬ turn cond A next t .continued := by
  rintro (h | h)
  · refine not_continued_andThen (fun t h => ?_) (not_continued_andThen
      not_continued_catchContinue fun t h => ?_) t h
    · exact (keepsLoop_check t _ h).2 rfl
    · cases h.2
  · refine not_continued_andThen (fun t h => ?_) (fun t h => ?_) t h
    · exact (keepsLoop_check t _ h).2 rfl
    · cases h.2

theorem not_continued_turnLast {cond : Expr} (t : List Event) :
    ¬ turnLast cond A t .continued := by
  refine not_continued_andThen not_continued_catchContinue (fun t h => ?_) t
  rcases h with h | ⟨h, -⟩ | ⟨t₁, t₂, -, h, -⟩
  · exact (keepsLoop_check t _ h).2 rfl
  · exact (keepsLoop_check t _ h).2 rfl
  · cases h.2

/-- What never ends normally has no use for what comes after it. -/
theorem andThen_of_not_done (h : ∀ t, ¬ A t .done) : A.andThen B = A := by
  ext t o
  constructor
  · rintro (⟨hA, -⟩ | ⟨t₁, t₂, hA, -⟩)
    · exact hA
    · exact absurd hA (h t₁)
  · intro hA
    refine .inl ⟨hA, ?_⟩
    rintro rfl
    exact h t hA

end Behavior

namespace Stmt

variable {s : Stmt} {items : List Stmt} {t : List Event} {o : Ending}

mutual

/-- Whether the statement ends or repeats loops only from inside them. -/
def exitsInLoops : Stmt → Bool
  | block items _ _ => exitsInLoopsList items
  | ifThen _ t _ => t.exitsInLoops
  | ifElse _ t e _ => t.exitsInLoops && e.exitsInLoops
  | label _ s _ => s.exitsInLoops
  | brk _ | cont _ => false
  | forLoop .. | whileLoop .. | doWhile .. | decl .. | expr .. | ret .. | goto .. | empty _ => true

/-- Whether the statements end or repeat loops only from inside them. -/
def exitsInLoopsList : List Stmt → Bool
  | [] => true
  | s :: rest => s.exitsInLoops && exitsInLoopsList rest

end

mutual

theorem runs_keepsLoop (s : Stmt) (h : s.exitsInLoops) : s.runs.KeepsLoop := by
  cases s with
  | block items b c => exact runsList_keepsLoop items h
  | ifThen p t c =>
    exact (Behavior.keepsLoop_check.andThen (runs_keepsLoop t h)).or Behavior.keepsLoop_check
  | ifElse p t e c =>
    obtain ⟨ht, he⟩ := Bool.and_eq_true_iff.1 h
    exact (Behavior.keepsLoop_check.andThen (runs_keepsLoop t ht)).or
      (Behavior.keepsLoop_check.andThen (runs_keepsLoop e he))
  | forLoop init cond next body c =>
    exact (Behavior.keepsLoop_only (by simp)).andThen
      (Behavior.keepsLoop_loop Behavior.not_continued_turn)
  | whileLoop p body c => exact Behavior.keepsLoop_loop Behavior.not_continued_turn
  | doWhile p body c => exact Behavior.keepsLoop_loop Behavior.not_continued_turnLast
  | label n s c => exact runs_keepsLoop s h
  | brk c | cont c => cases h
  | decl d c | expr e c | ret v c | goto l c | empty c => exact Behavior.keepsLoop_only (by simp)

theorem runsList_keepsLoop (items : List Stmt) (h : exitsInLoopsList items) :
    (runsList items).KeepsLoop := by
  cases items with
  | nil => exact Behavior.keepsLoop_only (by simp)
  | cons s rest =>
    obtain ⟨hs, hrest⟩ := Bool.and_eq_true_iff.1 h
    exact (runs_keepsLoop s hs).andThen (runsList_keepsLoop rest hrest)

end

theorem runs_unlabelled (s : Stmt) : s.unlabelled.runs = s.runs := by
  fun_induction unlabelled s with
  | case1 n s c ih => exact ih
  | case2 s h => rfl

theorem not_done_of_isReturn (h : s.unlabelled.isReturn) (t : List Event) : ¬ s.runs t .done := by
  rw [← runs_unlabelled]
  cases hs : s.unlabelled <;> simp_all [isReturn, runs, Behavior.only]

/-- Statements with a return among them do not come to their end. -/
theorem not_done_of_mem_isReturn (h : ∃ s ∈ items, s.unlabelled.isReturn) (t : List Event) :
    ¬ runsList items t .done := by
  induction items generalizing t with
  | nil => simp at h
  | cons s rest ih =>
    rintro (⟨-, hdone⟩ | ⟨t₁, t₂, hs, hrest, -⟩)
    · exact hdone rfl
    · obtain ⟨r, hr, hret⟩ := h
      rcases List.mem_cons.1 hr with rfl | hr
      · exact not_done_of_isReturn hret t₁ hs
      · exact ih ⟨r, hr, hret⟩ t₂ hrest

/-- What stands after a return is never run. -/
theorem runsList_takeThroughReturn (items : List Stmt) :
    runsList (takeThroughReturn items) = runsList items := by
  induction items with
  | nil => rfl
  | cons s rest ih =>
    rw [takeThroughReturn]
    split
    · next h =>
      simp only [runsList]
      rw [Behavior.andThen_of_not_done (not_done_of_isReturn h),
        Behavior.andThen_of_not_done (not_done_of_isReturn h)]
    · simp only [runsList, ih]

end Stmt

/-! ### Bodies that return after their labels -/

namespace Block

variable {b : Block} {code : List Stmt} {t : List Event} {l : String}

/-- The returning runs of a body from a label. -/
def fromLabel (b : Block) (l : String) : Behavior :=
  fun t o => o = .returned ∧ ∃ code, Stmt.afterLabel l b.items = some code ∧ b.RunsFrom code t

theorem fromLabel_returns (b : Block) (l : String) : (b.fromLabel l).Returns :=
  fun _ _ h => h.1

/-- Runs of a body are those of its items with the jumps followed. -/
theorem runsFrom_iff : b.RunsFrom code t ↔
    ∃ o, (o = .done ∨ o = .returned) ∧ (Stmt.runsList code).follow b.fromLabel t o := by
  constructor
  · intro h
    cases h with
    | @finish _ _ o h ho =>
      refine ⟨o, ho, .inl ⟨h, fun l hl => ?_⟩⟩
      rw [hl] at ho
      simp at ho
    | @jump _ target t₁ t₂ l h hl rest =>
      exact ⟨.returned, .inr rfl, .inr ⟨l, t₁, t₂, h, ⟨rfl, target, hl, rest⟩, rfl⟩⟩
  · rintro ⟨o, ho, ⟨h, -⟩ | ⟨l, t₁, t₂, h, ⟨-, target, hl, rest⟩, rfl⟩⟩
    · exact .finish h ho
    · exact .jump h hl rest

/-- Runs of a body that never jumps are those of its items. -/
theorem traces_iff_of_not_jumped (h : ∀ t l, ¬ Stmt.runsList b.items t (.jumped l)) :
    b.Traces t ↔ ∃ o, (o = .done ∨ o = .returned) ∧ Stmt.runsList b.items t o := by
  constructor
  · intro hrun
    cases hrun with
    | finish hrun ho => exact ⟨_, ho, hrun⟩
    | jump hrun => exact absurd hrun (h _ _)
  · rintro ⟨o, ho, hrun⟩
    exact .finish hrun ho

/-- Code that returns, with its jumps followed, has the runs of the body from there. -/
theorem follow_fromLabel (hcode : Stmt.afterLabel l b.items = some code)
    (hreturn : ∃ s ∈ code, s.unlabelled.isReturn) (hexits : Stmt.exitsInLoopsList code) :
    (Stmt.runsList code).follow b.fromLabel = b.fromLabel l := by
  ext t o
  constructor
  · intro h
    have ho : o = .returned := by
      rcases h with ⟨h, hjump⟩ | ⟨l, t₁, t₂, -, hl, -⟩
      · have hkeeps := Stmt.runsList_keepsLoop code hexits t o h
        cases o with
        | done => exact absurd h (Stmt.not_done_of_mem_isReturn hreturn t)
        | broke => exact absurd rfl hkeeps.1
        | continued => exact absurd rfl hkeeps.2
        | returned => rfl
        | jumped l => exact absurd rfl (hjump l)
      · exact hl.1
    exact ⟨ho, code, hcode, runsFrom_iff.2 ⟨o, .inr ho, h⟩⟩
  · rintro ⟨rfl, code', hcode', h⟩
    cases hcode.symm.trans hcode'
    obtain ⟨o, rfl | rfl, h⟩ := runsFrom_iff.1 h
    · obtain ⟨h, -⟩ := (Behavior.follow_iff b.fromLabel_returns (by simp)).1 h
      exact absurd h (Stmt.not_done_of_mem_isReturn hreturn t)
    · exact h

end Block

end MathKernel
