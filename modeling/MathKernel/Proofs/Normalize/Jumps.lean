import Mathlib.Data.List.Basic
import Mathlib.Data.List.Perm.Subperm
import MathKernel.Proofs.Semantics.Traces

/-!
# Elimination of jumps keeps traces

A body whose labels stand on its own items, each with a return at or after it, and whose labels
do not lead to one another in a cycle, loses its jumps and keeps its traces.

The copy that replaces a jump has the runs of the body from the label on. This is shown by
induction on the labels that are still to be replaced: along a chain of jumps no label comes
twice, so there is a copy for each before the steps run out.

## Main definitions

* `Block.JumpsFrom` — the graph of labels
* `Block.WellLabelled` — bodies whose jumps can be replaced by copies
* `Yields` — an expansion succeeds with a value of some property

## Main results

* `Stmt.mapGotosM_yields` — replacing jumps follows them
* `expandGoto_yields` — the copy for a label has the runs of the body from the label
* `FuncDef.eliminateJumps_traces` — the pass keeps traces and leaves no jump
-/

namespace MathKernel

/-! ### Statements without labels or jumps -/

namespace Stmt

variable {s : Stmt} {items : List Stmt} {l : String} {c : Coord}

/-- Whether no statement inside is labelled. -/
def LabelFree (s : Stmt) : Prop :=
  ∀ x ∈ s.substmts, x.isLabelled = false

/-- Whether no statement inside is a jump or labelled. -/
def JumpFree (s : Stmt) : Prop :=
  ∀ x ∈ s.substmts, x.isJump = false

theorem substmtsList_eq_flatMap (items : List Stmt) :
    substmtsList items = items.flatMap substmts := by
  induction items with
  | nil => rfl
  | cons s rest ih => simp [substmtsList, ih]

theorem mem_substmtsList {x : Stmt} : x ∈ substmtsList items ↔ ∃ s ∈ items, x ∈ s.substmts := by
  rw [substmtsList_eq_flatMap, List.mem_flatMap]

mutual

theorem dropLabels_labelFree (s : Stmt) : s.dropLabels.LabelFree := by
  intro x hx
  cases s with
  | block items b c =>
    rcases List.mem_cons.1 hx with rfl | hx
    · rfl
    · obtain ⟨s, hs, hx⟩ := mem_substmtsList.1 hx
      exact dropLabelsList_labelFree items s hs x hx
  | ifThen p t c =>
    rcases List.mem_cons.1 hx with rfl | hx
    · rfl
    · exact dropLabels_labelFree t x hx
  | ifElse p t e c =>
    rcases List.mem_cons.1 hx with rfl | hx
    · rfl
    · rcases List.mem_append.1 hx with hx | hx
      · exact dropLabels_labelFree t x hx
      · exact dropLabels_labelFree e x hx
  | forLoop _ _ _ body _ | whileLoop _ body _ | doWhile _ body _ =>
    rcases List.mem_cons.1 hx with rfl | hx
    · rfl
    · exact dropLabels_labelFree body x hx
  | label n s c => exact dropLabels_labelFree s x hx
  | decl _ _ | expr _ _ | ret _ _ | brk _ | cont _ | goto _ _ | empty _ =>
    obtain rfl := List.mem_singleton.1 hx
    rfl

theorem dropLabelsList_labelFree (items : List Stmt) :
    ∀ s ∈ dropLabelsList items, s.LabelFree := by
  intro s hs
  cases items with
  | nil => simp [dropLabelsList] at hs
  | cons first rest =>
    rcases List.mem_cons.1 hs with rfl | hs
    · exact dropLabels_labelFree first
    · exact dropLabelsList_labelFree rest s hs

end

mutual

/-- The jumps of a statement without its labels are its own. -/
theorem goto_mem_of_mem_dropLabels (s : Stmt) (h : goto l c ∈ s.dropLabels.substmts) :
    goto l c ∈ s.substmts := by
  cases s with
  | block items b c' =>
    have h := (List.mem_cons.1 h).resolve_left (by simp)
    exact List.mem_cons_of_mem _ (goto_mem_of_mem_dropLabelsList items h)
  | ifThen p t c' =>
    have h := (List.mem_cons.1 h).resolve_left (by simp)
    exact List.mem_cons_of_mem _ (goto_mem_of_mem_dropLabels t h)
  | ifElse p t e c' =>
    rcases List.mem_append.1 ((List.mem_cons.1 h).resolve_left (by simp)) with h | h
    · exact List.mem_cons_of_mem _ (List.mem_append_left _ (goto_mem_of_mem_dropLabels t h))
    · exact List.mem_cons_of_mem _ (List.mem_append_right _ (goto_mem_of_mem_dropLabels e h))
  | forLoop _ _ _ body _ | whileLoop _ body _ | doWhile _ body _ =>
    have h := (List.mem_cons.1 h).resolve_left (by simp)
    exact List.mem_cons_of_mem _ (goto_mem_of_mem_dropLabels body h)
  | label n s c' => exact List.mem_cons_of_mem _ (goto_mem_of_mem_dropLabels s h)
  | decl _ _ | expr _ _ | ret _ _ | brk _ | cont _ | goto _ _ | empty _ => exact h

theorem goto_mem_of_mem_dropLabelsList (items : List Stmt)
    (h : goto l c ∈ substmtsList (dropLabelsList items)) : goto l c ∈ substmtsList items := by
  cases items with
  | nil => exact h
  | cons first rest =>
    rcases List.mem_append.1 h with h | h
    · exact List.mem_append_left _ (goto_mem_of_mem_dropLabels first h)
    · exact List.mem_append_right _ (goto_mem_of_mem_dropLabelsList rest h)

end

mutual

/-- A label has no part in the runs of its statement. -/
theorem runs_dropLabels (s : Stmt) : s.dropLabels.runs = s.runs := by
  cases s with
  | block items b c => exact runsList_dropLabelsList items
  | ifThen p t c => simp only [dropLabels, runs, runs_dropLabels t]
  | ifElse p t e c => simp only [dropLabels, runs, runs_dropLabels t, runs_dropLabels e]
  | forLoop init cond next body c => simp only [dropLabels, runs, runs_dropLabels body]
  | whileLoop p body c => simp only [dropLabels, runs, runs_dropLabels body]
  | doWhile p body c => simp only [dropLabels, runs, runs_dropLabels body]
  | label n s c => exact runs_dropLabels s
  | decl _ _ | expr _ _ | ret _ _ | brk _ | cont _ | goto _ _ | empty _ => rfl

theorem runsList_dropLabelsList (items : List Stmt) :
    runsList (dropLabelsList items) = runsList items := by
  cases items with
  | nil => rfl
  | cons first rest =>
    simp only [dropLabelsList, runsList, runs_dropLabels first, runsList_dropLabelsList rest]

end

end Stmt

/-! ### Replacing jumps -/

/-- Whether an expansion succeeds from every count, with a value of the given property. -/
def Yields {α : Type} (x : Expansion α) (P : α → Prop) : Prop :=
  ∀ n, ∃ a n', x n = .ok (a, n') ∧ P a

namespace Yields

variable {α β : Type} {P : α → Prop} {Q : β → Prop}

theorem pure {a : α} (h : P a) : Yields (Pure.pure a : Expansion α) P :=
  fun n => ⟨a, n, rfl, h⟩

theorem bind {x : Expansion α} {g : α → Expansion β} (hx : Yields x P)
    (hg : ∀ a, P a → Yields (g a) Q) : Yields (x >>= g) Q := by
  intro n
  obtain ⟨a, n₁, ha, hP⟩ := hx n
  obtain ⟨b, n₂, hb, hQ⟩ := hg a hP n₁
  refine ⟨b, n₂, ?_, hQ⟩
  change (x n >>= fun p => g p.1 p.2) = _
  rw [ha]
  exact hb

end Yields

namespace Stmt

variable {f : String → Coord → Expansion Stmt} {K : String → Behavior}

/-- What a statement is to be replaced by: one without jumps and with the given runs. -/
def Replaces (B : Behavior) (s : Stmt) : Prop :=
  s.runs = B ∧ s.JumpFree

/-- What statements are to be replaced by. -/
def ReplacesList (B : Behavior) (items : List Stmt) : Prop :=
  runsList items = B ∧ ∀ s ∈ items, s.JumpFree

theorem JumpFree.list {items : List Stmt} (h : ∀ s ∈ items, s.JumpFree) :
    ∀ x ∈ substmtsList items, x.isJump = false := by
  intro x hx
  obtain ⟨s, hs, hx⟩ := mem_substmtsList.1 hx
  exact h s hs x hx

theorem jumpFree_of_cons {x : Stmt} {inner : List Stmt} {s : Stmt}
    (hs : s.substmts = x :: inner) (hx : x.isJump = false)
    (h : ∀ y ∈ inner, y.isJump = false) : s.JumpFree := by
  intro y hy
  rw [hs] at hy
  rcases List.mem_cons.1 hy with rfl | hy
  · exact hx
  · exact h y hy

mutual

/-- Replacing the jumps of a statement follows them. -/
theorem mapGotosM_yields (hK : ∀ l, (K l).Returns) (s : Stmt) (hlabels : s.LabelFree)
    (hf : ∀ l c, goto l c ∈ s.substmts → Yields (f l c) (Replaces (K l))) :
    Yields (s.mapGotosM f) (Replaces (s.runs.follow K)) := by
  cases s with
  | block items b c =>
    refine (mapGotosListM_yields hK items
      (fun s hs x hx => hlabels x (List.mem_cons_of_mem _ (mem_substmtsList.2 ⟨s, hs, hx⟩)))
      fun l c h => hf l c (List.mem_cons_of_mem _ h)).bind fun items' h => .pure ⟨h.1, ?_⟩
    exact jumpFree_of_cons rfl rfl (JumpFree.list h.2)
  | ifThen p t c =>
    refine (mapGotosM_yields hK t (fun x hx => hlabels x (List.mem_cons_of_mem _ hx))
      fun l c h => hf l c (List.mem_cons_of_mem _ h)).bind fun t' h => .pure ⟨?_, ?_⟩
    · simp only [runs, Behavior.follow_or, Behavior.follow_andThen hK, Behavior.follow_check, h.1]
    · exact jumpFree_of_cons rfl rfl h.2
  | ifElse p t e c =>
    refine (mapGotosM_yields hK t
      (fun x hx => hlabels x (List.mem_cons_of_mem _ (List.mem_append_left _ hx)))
      fun l c h => hf l c (List.mem_cons_of_mem _ (List.mem_append_left _ h))).bind fun t' ht => ?_
    refine (mapGotosM_yields hK e
      (fun x hx => hlabels x (List.mem_cons_of_mem _ (List.mem_append_right _ hx)))
      fun l c h => hf l c (List.mem_cons_of_mem _ (List.mem_append_right _ h))).bind
      fun e' he => .pure ⟨?_, ?_⟩
    · simp only [runs, Behavior.follow_or, Behavior.follow_andThen hK, Behavior.follow_check, ht.1,
        he.1]
    · refine jumpFree_of_cons rfl rfl fun x hx => ?_
      exact (List.mem_append.1 hx).elim (ht.2 x) (he.2 x)
  | forLoop init cond next body c =>
    refine (mapGotosM_yields hK body (fun x hx => hlabels x (List.mem_cons_of_mem _ hx))
      fun l c h => hf l c (List.mem_cons_of_mem _ h)).bind fun body' h => .pure ⟨?_, ?_⟩
    · -- What a jump leads to returns, so a jump out of the loop can be followed inside it.
      simp only [runs, Behavior.follow_andThen hK, Behavior.follow_loop hK, Behavior.follow_turn hK,
        h.1]
      rw [Behavior.follow_only (by simp)]
    · exact jumpFree_of_cons rfl rfl h.2
  | whileLoop p body c =>
    refine (mapGotosM_yields hK body (fun x hx => hlabels x (List.mem_cons_of_mem _ hx))
      fun l c h => hf l c (List.mem_cons_of_mem _ h)).bind fun body' h => .pure ⟨?_, ?_⟩
    · simp only [runs, Behavior.follow_loop hK, Behavior.follow_turn hK, h.1]
    · exact jumpFree_of_cons rfl rfl h.2
  | doWhile p body c =>
    refine (mapGotosM_yields hK body (fun x hx => hlabels x (List.mem_cons_of_mem _ hx))
      fun l c h => hf l c (List.mem_cons_of_mem _ h)).bind fun body' h => .pure ⟨?_, ?_⟩
    · simp only [runs, Behavior.follow_loop hK, Behavior.follow_turnLast hK, h.1]
    · exact jumpFree_of_cons rfl rfl h.2
  | goto l c =>
    simp only [runs, Behavior.follow_jumped]
    exact hf l c (by simp [substmts])
  | label n s c => exact absurd (hlabels (label n s c) (by simp [substmts])) (by simp [isLabelled])
  | decl _ _ | expr _ _ | ret _ _ | brk _ | cont _ | empty _ =>
    refine .pure ⟨?_, jumpFree_of_cons rfl rfl (by simp)⟩
    simp only [runs]
    rw [Behavior.follow_only (by simp)]

theorem mapGotosListM_yields (hK : ∀ l, (K l).Returns) (items : List Stmt)
    (hlabels : ∀ s ∈ items, s.LabelFree)
    (hf : ∀ l c, goto l c ∈ substmtsList items → Yields (f l c) (Replaces (K l))) :
    Yields (mapGotosListM f items) (ReplacesList ((runsList items).follow K)) := by
  cases items with
  | nil =>
    refine .pure ⟨?_, by simp⟩
    simp only [runsList]
    rw [Behavior.follow_only (by simp)]
  | cons first rest =>
    refine (mapGotosM_yields hK first (hlabels first (by simp))
      fun l c h => hf l c (List.mem_append_left _ h)).bind fun first' hfirst => ?_
    refine (mapGotosListM_yields hK rest (fun s hs => hlabels s (List.mem_cons_of_mem _ hs))
      fun l c h => hf l c (List.mem_append_right _ h)).bind fun rest' hrest => .pure ⟨?_, ?_⟩
    · simp only [runsList, Behavior.follow_andThen hK, hfirst.1, hrest.1]
    · exact List.forall_mem_cons.2 ⟨hfirst.2, hrest.2⟩

end

end Stmt

/-! ### Cutting blocks off after a return -/

namespace Block

theorem runsList_cutAfterReturn (b : Block) :
    Stmt.runsList b.cutAfterReturn.value.items = Stmt.runsList b.items := by
  obtain ⟨items, coord⟩ := b
  simp only [cutAfterReturn]
  induction items with
  | nil => rfl
  | cons s rest ih =>
    by_cases hs : s.isReturn
    · have hdone : ∀ t, ¬ s.runs t .done := by
        cases s <;> simp_all [Stmt.isReturn, Stmt.runs, Behavior.only]
      simp only [List.takeWhile_cons, hs, Bool.not_true, Bool.false_eq_true, if_false,
        List.length_nil, List.take_succ_cons, List.take_zero, Stmt.runsList]
      rw [Behavior.andThen_of_not_done hdone, Behavior.andThen_of_not_done hdone]
    · simp only [List.takeWhile_cons, hs, Bool.not_false, if_true, List.length_cons,
        List.take_succ_cons, Stmt.runsList, ih]

theorem subset_cutAfterReturn (b : Block) : b.cutAfterReturn.value.items ⊆ b.items :=
  fun _ h => List.mem_of_mem_take h

end Block

namespace Stmt

mutual

/-- Cutting the blocks inside a statement off after their returns keeps its runs. -/
theorem runs_cutAfterReturn (s : Stmt) :
    (s.mapBlocksM Block.cutAfterReturn).value.runs = s.runs := by
  cases s with
  | block items b c =>
    simp only [mapBlocksM, Counted.value_bind, Counted.value_pure, runs]
    rw [Block.runsList_cutAfterReturn, runsList_cutAfterReturn items]
  | ifThen p t c =>
    simp only [mapBlocksM, Counted.value_bind, Counted.value_pure, runs, runs_cutAfterReturn t]
  | ifElse p t e c =>
    simp only [mapBlocksM, Counted.value_bind, Counted.value_pure, runs, runs_cutAfterReturn t,
      runs_cutAfterReturn e]
  | forLoop _ _ _ body _ | whileLoop _ body _ | doWhile _ body _ =>
    simp only [mapBlocksM, Counted.value_bind, Counted.value_pure, runs, runs_cutAfterReturn body]
  | label n s c =>
    simp only [mapBlocksM, Counted.value_bind, Counted.value_pure, runs, runs_cutAfterReturn s]
  | decl _ _ | expr _ _ | ret _ _ | brk _ | cont _ | goto _ _ | empty _ => rfl

theorem runsList_cutAfterReturn (items : List Stmt) :
    runsList (mapBlocksListM Block.cutAfterReturn items).value = runsList items := by
  cases items with
  | nil => rfl
  | cons first rest =>
    simp only [mapBlocksListM, Counted.value_bind, Counted.value_pure, runsList,
      runs_cutAfterReturn first, runsList_cutAfterReturn rest]

end

mutual

theorem jumpFree_cutAfterReturn (s : Stmt) (h : s.JumpFree) :
    (s.mapBlocksM Block.cutAfterReturn).value.JumpFree := by
  cases s with
  | block items b c =>
    refine jumpFree_of_cons rfl rfl (JumpFree.list fun s hs => ?_)
    refine jumpFreeList_cutAfterReturn items (fun s hs x hx => ?_) s
      (Block.subset_cutAfterReturn _ hs)
    exact h x (List.mem_cons_of_mem _ (mem_substmtsList.2 ⟨s, hs, hx⟩))
  | ifThen p t c =>
    refine jumpFree_of_cons rfl rfl (jumpFree_cutAfterReturn t fun x hx => ?_)
    exact h x (List.mem_cons_of_mem _ hx)
  | ifElse p t e c =>
    refine jumpFree_of_cons rfl rfl fun x hx => ?_
    rcases List.mem_append.1 hx with hx | hx
    · refine jumpFree_cutAfterReturn t (fun x hx => h x ?_) x hx
      exact List.mem_cons_of_mem _ (List.mem_append_left _ hx)
    · refine jumpFree_cutAfterReturn e (fun x hx => h x ?_) x hx
      exact List.mem_cons_of_mem _ (List.mem_append_right _ hx)
  | forLoop _ _ _ body _ | whileLoop _ body _ | doWhile _ body _ =>
    refine jumpFree_of_cons rfl rfl (jumpFree_cutAfterReturn body fun x hx => ?_)
    exact h x (List.mem_cons_of_mem _ hx)
  | label n s c => exact absurd (h (label n s c) (by simp [substmts])) (by simp [isJump])
  | decl _ _ | expr _ _ | ret _ _ | brk _ | cont _ | goto _ _ | empty _ => exact h

theorem jumpFreeList_cutAfterReturn (items : List Stmt) (h : ∀ s ∈ items, s.JumpFree) :
    ∀ s ∈ (mapBlocksListM Block.cutAfterReturn items).value, s.JumpFree := by
  cases items with
  | nil => exact h
  | cons first rest =>
    obtain ⟨hfirst, hrest⟩ := List.forall_mem_cons.1 h
    exact List.forall_mem_cons.2
      ⟨jumpFree_cutAfterReturn first hfirst, jumpFreeList_cutAfterReturn rest hrest⟩

end

/-! ### Labels and what they stand for -/

variable {l : String} {items code : List Stmt}

theorem exists_append_of_afterLabel (h : afterLabel l items = some code) :
    ∃ before, items = before ++ code := by
  induction items with
  | nil => cases h
  | cons s rest ih =>
    rw [afterLabel] at h
    split at h
    · exact ⟨[], (Option.some.inj h)⟩
    · obtain ⟨before, rfl⟩ := ih h
      exact ⟨s :: before, rfl⟩

theorem exists_afterLabel_of_mem {s : Stmt} (hs : s ∈ items) (hl : l ∈ s.labels) :
    ∃ code, afterLabel l items = some code := by
  induction items with
  | nil => cases hs
  | cons first rest ih =>
    rw [afterLabel]
    by_cases hfirst : l ∈ first.labels
    · exact ⟨_, if_pos hfirst⟩
    · rw [if_neg hfirst]
      rcases List.mem_cons.1 hs with rfl | hs
      · exact absurd hl hfirst
      · exact ih hs

theorem lookup_map_const {α : Type} (l : String) (names : List String) (a : α) :
    (names.map (·, a)).lookup l = if l ∈ names then some a else none := by
  induction names with
  | nil => rfl
  | cons name rest ih =>
    by_cases h : l = name
    · simp [h]
    · have hb : (l == name) = false := by simpa using h
      simp [List.lookup_cons, hb, ih, h]

/-- The first entry for a label is what follows the first item that carries it. -/
theorem lookup_itemCaptures (l : String) (items : List Stmt) :
    (itemCaptures items).lookup l = (afterLabel l items).map takeThroughReturn := by
  induction items with
  | nil => rfl
  | cons s rest ih =>
    rw [itemCaptures, List.lookup_append, lookup_map_const, ih, afterLabel]
    split <;> rfl

theorem takeThroughReturn_subset (items : List Stmt) : takeThroughReturn items ⊆ items := by
  intro x hx
  induction items with
  | nil => exact hx
  | cons s rest ih =>
    rw [takeThroughReturn] at hx
    split at hx
    · exact List.mem_cons.2 (.inl (List.mem_singleton.1 hx))
    · rcases List.mem_cons.1 hx with rfl | hx
      · exact List.mem_cons_self
      · exact List.mem_cons_of_mem _ (ih hx)

/-- A label inside an item that has labels only in front is one of these. -/
theorem mem_labels_of_mem_substmts {s x : Stmt} {c : Coord} (h : label l x c ∈ s.substmts)
    (hinner : s.unlabelled.LabelFree) : l ∈ s.labels := by
  fun_induction unlabelled s with
  | case1 n s c' ih =>
    rcases List.mem_cons.1 h with heq | h
    · cases heq
      exact List.mem_cons_self
    · exact List.mem_cons_of_mem _ (ih h hinner)
  | case2 s hs => exact absurd (hinner _ h) (by simp [isLabelled])

end Stmt

namespace Block

/-- The code that stands for the label `l`, through its first return, has a jump to `m`. -/
def JumpsFrom (b : Block) (l m : String) : Prop :=
  ∃ code c, Stmt.afterLabel l b.items = some code ∧
    Stmt.goto m c ∈ Stmt.substmtsList (Stmt.takeThroughReturn code)

/-- A body whose jumps can be replaced by copies. -/
structure WellLabelled (b : Block) : Prop where
  /-- Every jump has a label of the body for its target. -/
  declared : ∀ l c, Stmt.goto l c ∈ b.stmts → ∃ s c', Stmt.label l s c' ∈ b.stmts
  /-- No label leads back to itself. -/
  acyclic : ∀ l, ¬ Relation.TransGen b.JumpsFrom l l
  /-- Labels stand on the items of the body and nowhere inside them. -/
  outermost : ∀ s ∈ b.items, s.unlabelled.LabelFree
  /-- A return is among the items at or after each label. -/
  returns : ∀ l code, Stmt.afterLabel l b.items = some code →
    ∃ s ∈ code, s.unlabelled.isReturn
  /-- Loops are ended and repeated from inside them. -/
  exits : Stmt.exitsInLoopsList b.items

theorem exitsInLoopsList_of_append {before code : List Stmt}
    (h : Stmt.exitsInLoopsList (before ++ code)) : Stmt.exitsInLoopsList code := by
  induction before with
  | nil => exact h
  | cons s rest ih => exact ih (Bool.and_eq_true_iff.1 h).2

variable {b : Block} {l m : String}

theorem WellLabelled.exists_afterLabel (h : b.WellLabelled) {c : Coord}
    (hgoto : Stmt.goto l c ∈ b.stmts) : ∃ code, Stmt.afterLabel l b.items = some code := by
  obtain ⟨s, c', hlabel⟩ := h.declared l c hgoto
  obtain ⟨item, hitem, hlabel⟩ := Stmt.mem_substmtsList.1 hlabel
  exact Stmt.exists_afterLabel_of_mem hitem
    (Stmt.mem_labels_of_mem_substmts hlabel (h.outermost item hitem))

/-- The code for a label is what follows it, through the first return and without labels. -/
theorem lookup_captures {code : List Stmt} (h : Stmt.afterLabel l b.items = some code) :
    b.captures.lookup l = some (Stmt.dropLabelsList (Stmt.takeThroughReturn code)) := by
  have hmap (entries : List (String × List Stmt)) :
      (entries.map (Prod.map id Stmt.dropLabelsList)).lookup l =
        (entries.lookup l).map Stmt.dropLabelsList := by
    induction entries with
    | nil => rfl
    | cons entry rest ih =>
      obtain ⟨name, items⟩ := entry
      rw [List.map_cons, Prod.map_apply, id, List.lookup_cons, List.lookup_cons, ih]
      cases l == name <;> rfl
  have hcaptures : b.captures = (Stmt.itemCaptures b.items ++ Stmt.capturesList b.items).map
      (Prod.map id Stmt.dropLabelsList) := rfl
  rw [hcaptures, hmap, List.lookup_append, Stmt.lookup_itemCaptures, h]
  rfl

theorem mem_captures_of_afterLabel {code : List Stmt}
    (h : Stmt.afterLabel l b.items = some code) : l ∈ b.captures.map Prod.fst := by
  obtain ⟨before, after, hcaptures, -⟩ := List.lookup_eq_some_iff.1 (lookup_captures h)
  rw [hcaptures]
  simp

/-- Different labels that lead somewhere are no more than the captured ones. -/
theorem length_le_of_transGen {active : List String} (hnodup : active.Nodup)
    (hactive : ∀ a ∈ active, Relation.TransGen b.JumpsFrom a l) :
    active.length ≤ b.captures.length := by
  have hsubset : active ⊆ b.captures.map Prod.fst := by
    intro a ha
    obtain ⟨m, ⟨code, c, hcode, -⟩, -⟩ := Relation.TransGen.head'_iff.1 (hactive a ha)
    exact mem_captures_of_afterLabel hcode
  simpa using hnodup.length_le_of_subset hsubset

/-- A jump in the code for a label is one of the body. -/
theorem mem_stmts_of_mem_takeThroughReturn {code : List Stmt} {x : Stmt}
    (hcode : Stmt.afterLabel l b.items = some code)
    (hx : x ∈ Stmt.substmtsList (Stmt.takeThroughReturn code)) : x ∈ b.stmts := by
  obtain ⟨before, hitems⟩ := Stmt.exists_append_of_afterLabel hcode
  obtain ⟨s, hs, hx⟩ := Stmt.mem_substmtsList.1 hx
  refine Stmt.mem_substmtsList.2 ⟨s, ?_, hx⟩
  rw [hitems]
  exact List.mem_append_right _ (Stmt.takeThroughReturn_subset code hs)

end Block

/-- The block that replaces a jump has the runs of the body from the label on. -/
theorem expandGoto_yields {b : Block} (h : b.WellLabelled) (name : String) (fuel : Nat)
    (active : List String) (l : String) (c : Coord) (hnodup : active.Nodup)
    (hactive : ∀ a ∈ active, Relation.TransGen b.JumpsFrom a l)
    (hl : ∃ code, Stmt.afterLabel l b.items = some code)
    (hfuel : b.captures.length < fuel + active.length) :
    Yields (expandGoto b.captures name fuel active l c) (Stmt.Replaces (b.fromLabel l)) := by
  induction fuel generalizing active l c with
  | zero =>
    have := Block.length_le_of_transGen hnodup hactive
    omega
  | succ fuel ih =>
    obtain ⟨code, hcode⟩ := hl
    have hnot : l ∉ active := fun hmem => h.acyclic l (hactive l hmem)
    -- The labels in the copy come after `l` and all that is active.
    have hcopy : Yields
        (Stmt.mapGotosListM (expandGoto b.captures name fuel (l :: active))
          (Stmt.dropLabelsList (Stmt.takeThroughReturn code)))
        (Stmt.ReplacesList (b.fromLabel l)) := by
      have hruns : (Stmt.runsList (Stmt.dropLabelsList (Stmt.takeThroughReturn code))).follow
          b.fromLabel = b.fromLabel l := by
        obtain ⟨before, hitems⟩ := Stmt.exists_append_of_afterLabel hcode
        rw [Stmt.runsList_dropLabelsList, Stmt.runsList_takeThroughReturn]
        refine Block.follow_fromLabel hcode (h.returns l code hcode) ?_
        exact Block.exitsInLoopsList_of_append (hitems ▸ h.exits)
      rw [← hruns]
      refine Stmt.mapGotosListM_yields b.fromLabel_returns _ (Stmt.dropLabelsList_labelFree _)
        fun m c' hgoto => ?_
      have hgoto := Stmt.goto_mem_of_mem_dropLabelsList _ hgoto
      have hjump : b.JumpsFrom l m := ⟨code, c', hcode, hgoto⟩
      refine ih (l :: active) m c' (List.nodup_cons.2 ⟨hnot, hnodup⟩) (fun a ha => ?_) ?_ ?_
      · rcases List.mem_cons.1 ha with rfl | ha
        · exact .single hjump
        · exact (hactive a ha).tail hjump
      · exact h.exists_afterLabel (Block.mem_stmts_of_mem_takeThroughReturn hcode hgoto)
      · simp only [List.length_cons]
        omega
    rw [expandGoto, if_neg (by simpa using hnot), Block.lookup_captures hcode]
    refine hcopy.bind fun items hitems n => ⟨.block items none c, n + 1, rfl, hitems.1, ?_⟩
    exact Stmt.jumpFree_of_cons rfl rfl (Stmt.JumpFree.list hitems.2)

/-! ### The pass -/

/-- Replacing the jumps of a well-labelled body follows them. -/
theorem Block.WellLabelled.mapGotos_yields {b : Block} (h : b.WellLabelled) (name : String) :
    Yields
      (Stmt.mapGotosListM (expandGoto b.captures name (b.captures.length + 1) [])
        (Stmt.dropLabelsList b.items))
      (Stmt.ReplacesList ((Stmt.runsList b.items).follow b.fromLabel)) := by
  rw [← Stmt.runsList_dropLabelsList b.items]
  refine Stmt.mapGotosListM_yields b.fromLabel_returns _ (Stmt.dropLabelsList_labelFree _)
    fun l c hgoto => ?_
  have hgoto := Stmt.goto_mem_of_mem_dropLabelsList _ hgoto
  exact expandGoto_yields h name _ [] l c List.nodup_nil (by simp) (h.exists_afterLabel hgoto)
    (by simp)

/-- A well-labelled body loses its jumps and keeps its traces. -/
theorem FuncDef.eliminateJumps_traces {f : FuncDef} (h : f.body.WellLabelled) :
    ∃ body tally, f.eliminateJumps = .ok ({ f with body }, tally) ∧
      (∀ s ∈ body.stmts, s.isJump = false) ∧ ∀ t, body.Traces t ↔ f.body.Traces t := by
  rw [eliminateJumps]
  split
  · obtain ⟨items, replaced, hrun, hruns, hfree⟩ := h.mapGotos_yields f.name 0
    let cut := ({ f.body with items } : Block).mapBlocksM Block.cutAfterReturn
    have hcut : Stmt.runsList cut.value.items =
        (Stmt.runsList f.body.items).follow f.body.fromLabel := by
      rw [← hruns, ← Stmt.runsList_cutAfterReturn items]
      exact Block.runsList_cutAfterReturn _
    refine ⟨cut.value, ⟨replaced, 0, f.body.labelCount + cut.count⟩, ?_, ?_, fun t => ?_⟩
    · simp only [StateT.run]
      rw [hrun]
      rfl
    · refine Stmt.JumpFree.list fun s hs => ?_
      exact Stmt.jumpFreeList_cutAfterReturn items hfree s (Block.subset_cutAfterReturn _ hs)
    · have hjump : ∀ t l, ¬ Stmt.runsList cut.value.items t (.jumped l) := by
        rw [hcut]
        exact Behavior.not_jumped_follow f.body.fromLabel_returns
      rw [Block.traces_iff_of_not_jumped hjump, hcut]
      exact Block.runsFrom_iff.symm
  · next hany =>
    refine ⟨f.body, .zero, rfl, ?_, fun t => Iff.rfl⟩
    simpa using hany

/-- A body with a jump out of a loop, jumps from the code of one label to another, and two labels
on one statement: `while (x) { if (x) goto out; x = 1; } goto tail; out: x = 2; goto end;
tail: end: return x;`. -/
def chainedJumps : FuncDef where
  decl := .prototype "f" .int [.ofScalar "x" .int none]
  body.items := [
    .whileLoop (.id "x" none)
      (.block [
        .ifThen (.id "x" none) (.goto "out" none) none,
        .expr (.assign .assign (.id "x" none) (.int 1 none) none) none] none none) none,
    .goto "tail" none,
    .label "out" (.expr (.assign .assign (.id "x" none) (.int 2 none) none) none) none,
    .goto "end" none,
    .label "tail" (.label "end" (.ret (some (.id "x" none)) none) none) none]
  body.coord := none
  coord := none

theorem chainedJumps_afterLabel {l : String} {code : List Stmt}
    (h : Stmt.afterLabel l chainedJumps.body.items = some code) :
    (l = "out" ∧ code = chainedJumps.body.items.drop 2) ∨
      ((l = "tail" ∨ l = "end") ∧ code = chainedJumps.body.items.drop 4) := by
  simp only [chainedJumps, Stmt.afterLabel, Stmt.labels] at h
  grind [chainedJumps]

theorem chainedJumps_jumpsFrom {l m : String} (h : chainedJumps.body.JumpsFrom l m) :
    l = "out" ∧ m = "end" := by
  obtain ⟨code, c, hcode, hgoto⟩ := h
  rcases chainedJumps_afterLabel hcode with ⟨rfl, rfl⟩ | ⟨-, rfl⟩
  · simp [chainedJumps, Stmt.takeThroughReturn, Stmt.unlabelled, Stmt.isReturn, Stmt.substmtsList,
      Stmt.substmts] at hgoto
    exact ⟨rfl, hgoto.1⟩
  · simp [chainedJumps, Stmt.takeThroughReturn, Stmt.unlabelled, Stmt.isReturn, Stmt.substmtsList,
      Stmt.substmts] at hgoto

theorem chainedJumps_wellLabelled : chainedJumps.body.WellLabelled where
  declared l c h := by
    simp only [chainedJumps, Block.stmts, Stmt.substmtsList, Stmt.substmts] at h ⊢
    simp at h ⊢
    rcases h with ⟨rfl, -⟩ | ⟨rfl, -⟩ | ⟨rfl, -⟩ <;> simp
  acyclic l h := by
    obtain ⟨m, hjump, hrest⟩ := Relation.TransGen.head'_iff.1 h
    obtain ⟨rfl, rfl⟩ := chainedJumps_jumpsFrom hjump
    rcases hrest.cases_head with heq | ⟨n, hjump', -⟩
    · simp at heq
    · obtain ⟨heq, -⟩ := chainedJumps_jumpsFrom hjump'
      simp at heq
  outermost := by
    simp [chainedJumps, Stmt.unlabelled, Stmt.LabelFree, Stmt.substmts, Stmt.substmtsList,
      Stmt.isLabelled]
  returns l code h := by
    rcases chainedJumps_afterLabel h with ⟨-, rfl⟩ | ⟨-, rfl⟩ <;>
      simp [chainedJumps, Stmt.unlabelled, Stmt.isReturn]
  exits := by decide

theorem eliminateJumps_traces_chainedJumps :
    chainedJumps.body.WellLabelled ∧
      ∃ body tally, chainedJumps.eliminateJumps = .ok ({ chainedJumps with body }, tally) ∧
        (∀ s ∈ body.stmts, s.isJump = false) ∧
        ∀ t, body.Traces t ↔ chainedJumps.body.Traces t :=
  ⟨chainedJumps_wellLabelled, FuncDef.eliminateJumps_traces chainedJumps_wellLabelled⟩

end MathKernel
