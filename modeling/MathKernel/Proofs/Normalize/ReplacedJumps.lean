import MathKernel.Proofs.Normalize.Counting
import MathKernel.Proofs.Normalize.LabelGraph
import MathKernel.Proofs.Semantics.Entry
import MathKernel.Proofs.Syntax.Walks

/-!
# What runs after a replaced jump

The block that replaces a jump is to run what the body runs from the label on, to the end of the
function. It does if the code captured for the label leaves: if each of its runs ends in a return
or in a further jump. Code that can end in any other way goes on with what stands after the jump.

To speak of the blocks that were put in place of jumps, the expansion is repeated with each of
them marked by its label. Without the marks it is the expansion itself.

## Main definitions

* `expandMarked`, `FuncDef.markedBody` — the elimination of jumps, with the replaced jumps marked
* `Stmt.MarkedBy` — what the marked blocks run
* `Block.JumpsLeave` — the code captured for labels that are jumped to leaves

## Main results

* `FuncDef.exists_markedBody` — without its marks the marked body is the new body
* `expandMarked_ensures` — the block for a label runs what the body runs from the label on
* `FuncDef.tracesFrom_markedBody` — after a replaced jump nothing runs but what follows its label
-/

namespace MathKernel

/-! ### Marked expansion -/

/-- The block that replaces a jump, as in `expandGoto`, under the label that it stands for. -/
def expandMarked (captures : List (String × List Stmt)) (function : String) :
    Nat → List String → String → Coord → Expansion Stmt
  | 0, _, label, _ => throw (.cyclicGoto label function)
  | fuel + 1, active, label, coord =>
    if active.contains label then throw (.cyclicGoto label function)
    else match captures.lookup label with
      | none => throw (.unknownLabel label function)
      | some items => do
        let items ←
          Stmt.mapGotosListM (expandMarked captures function fuel (label :: active)) items
        modify (· + 1)
        pure (.label label (.block items none coord) none)

/-- The body without its jumps, each block that replaces one under the label it stands for. -/
def FuncDef.markedBody (f : FuncDef) : Except NormalizeError Block :=
  if f.body.stmts.any Stmt.isJump then do
    let captures := f.body.captures
    let expand := expandMarked captures f.name (captures.length + 1) []
    let (items, _) ← (Stmt.mapGotosListM expand (Stmt.dropLabelsList f.body.items)).run 0
    return (({ f.body with items } : Block).mapBlocksM Block.cutAfterReturn).value
  else return f.body

namespace Stmt

theorem dropLabelsList_eq_map (items : List Stmt) :
    dropLabelsList items = items.map dropLabels := by
  induction items with
  | nil => rfl
  | cons s rest ih => rw [dropLabelsList, ih, List.map_cons]

section Naturality

variable {m : Type → Type} [Monad m] [LawfulMonad m] {f g : String → Coord → m Stmt}

mutual

/-- Labels of what replaces the jumps can be dropped before or after. -/
theorem mapGotosM_dropLabels (hfg : ∀ l c, g l c = dropLabels <$> f l c) (s : Stmt)
    (h : s.LabelFree) : s.mapGotosM g = dropLabels <$> s.mapGotosM f := by
  cases s with
  | block items b c =>
    have hitems := mapGotosListM_dropLabels hfg items fun s hs x hx =>
      h x (List.mem_cons_of_mem _ (mem_substmtsList.2 ⟨s, hs, hx⟩))
    simp [mapGotosM, hitems, dropLabels]
  | ifThen p t c =>
    have ht := mapGotosM_dropLabels hfg t fun x hx => h x (List.mem_cons_of_mem _ hx)
    simp [mapGotosM, ht, dropLabels]
  | ifElse p t e c =>
    have ht := mapGotosM_dropLabels hfg t fun x hx =>
      h x (List.mem_cons_of_mem _ (List.mem_append_left _ hx))
    have he := mapGotosM_dropLabels hfg e fun x hx =>
      h x (List.mem_cons_of_mem _ (List.mem_append_right _ hx))
    simp [mapGotosM, ht, he, dropLabels]
  | forLoop _ _ _ body _ | whileLoop _ body _ | doWhile _ body _ =>
    have hbody := mapGotosM_dropLabels hfg body fun x hx => h x (List.mem_cons_of_mem _ hx)
    simp [mapGotosM, hbody, dropLabels]
  | goto l c => exact hfg l c
  | label n s c => exact absurd (h (label n s c) List.mem_cons_self) (by simp [isLabelled])
  | decl _ _ | expr _ _ | ret _ _ | brk _ | cont _ | empty _ => simp [mapGotosM, dropLabels]

theorem mapGotosListM_dropLabels (hfg : ∀ l c, g l c = dropLabels <$> f l c) (items : List Stmt)
    (h : ∀ s ∈ items, s.LabelFree) :
    mapGotosListM g items = dropLabelsList <$> mapGotosListM f items := by
  cases items with
  | nil => simp [mapGotosListM, dropLabelsList]
  | cons first rest =>
    have hfirst := mapGotosM_dropLabels hfg first (h first List.mem_cons_self)
    have hrest := mapGotosListM_dropLabels hfg rest fun s hs => h s (List.mem_cons_of_mem _ hs)
    simp [mapGotosListM, hfirst, hrest, dropLabelsList]

end

end Naturality

end Stmt

/-- Without its marks the marked expansion is the expansion. -/
theorem expandGoto_eq_expandMarked (b : Block) (function : String) (fuel : Nat)
    (active : List String) (l : String) (c : Coord) :
    expandGoto b.captures function fuel active l c =
      Stmt.dropLabels <$> expandMarked b.captures function fuel active l c := by
  induction fuel generalizing active l c with
  | zero => rfl
  | succ fuel ih =>
    simp only [expandGoto, expandMarked]
    split
    · rfl
    · cases hlookup : b.captures.lookup l with
      | none => rfl
      | some items =>
        have hitems := Stmt.mapGotosListM_dropLabels (ih (l :: active)) items
          (Block.labelFree_of_lookup hlookup)
        simp [hitems, Stmt.dropLabels]

/-! ### What the marked blocks run -/

namespace Stmt

/-- Marks stand on blocks, and a marked block runs only what `K` has for its label. -/
def MarkedBy (K : String → Behavior) (s : Stmt) : Prop :=
  ∀ n x c, label n x c ∈ s.substmts → x.runs ≤ K n ∧ ∃ items b c', x = block items b c'

variable {K : String → Behavior} {s : Stmt} {items : List Stmt}

theorem MarkedBy.of_cons {x : Stmt} {inner : List Stmt} (hs : s.substmts = x :: inner)
    (hx : x.isLabelled = false)
    (h : ∀ n y c, label n y c ∈ inner → y.runs ≤ K n ∧ ∃ items b c', y = block items b c') :
    s.MarkedBy K := by
  intro n y c hy
  rw [hs] at hy
  rcases List.mem_cons.1 hy with rfl | hy
  · cases hx
  · exact h n y c hy

theorem MarkedBy.list (h : ∀ s ∈ items, s.MarkedBy K) (n : String) (x : Stmt) (c : Coord)
    (hx : label n x c ∈ substmtsList items) :
    x.runs ≤ K n ∧ ∃ items b c', x = block items b c' := by
  obtain ⟨s, hs, hx⟩ := mem_substmtsList.1 hx
  exact h s hs n x c hx

theorem MarkedBy.of_block {b c : Coord} (h : (block items b c).MarkedBy K) :
    ∀ s ∈ items, s.MarkedBy K :=
  fun s hs n x c' hx => h n x c' (List.mem_cons_of_mem _ (mem_substmtsList.2 ⟨s, hs, hx⟩))

/-- What a jump to `l` may be replaced by. -/
def StandsFor (K : String → Behavior) (l : String) (s : Stmt) : Prop :=
  s.runs ≤ K l ∧ s.MarkedBy K

section Gotos

variable {f : String → Coord → Expansion Stmt}

mutual

/-- With its jumps replaced a statement runs what it runs with its jumps followed. -/
theorem mapGotosM_ensures (hK : ∀ l, (K l).Returns) (s : Stmt) (hlabels : s.LabelFree)
    (hf : ∀ l c, goto l c ∈ s.substmts → Ensures (f l c) (StandsFor K l)) :
    Ensures (s.mapGotosM f) fun s' => s'.runs ≤ s.runs.follow K ∧ s'.MarkedBy K := by
  cases s with
  | block items b c =>
    refine ensures_bind (mapGotosListM_ensures hK items
      (fun s hs x hx => hlabels x (List.mem_cons_of_mem _ (mem_substmtsList.2 ⟨s, hs, hx⟩)))
      fun l c h => hf l c (List.mem_cons_of_mem _ h)) fun items' h => ensures_pure ⟨h.1, ?_⟩
    exact .of_cons rfl rfl (MarkedBy.list h.2)
  | ifThen p t c =>
    refine ensures_bind (mapGotosM_ensures hK t (fun x hx => hlabels x (List.mem_cons_of_mem _ hx))
      fun l c h => hf l c (List.mem_cons_of_mem _ h)) fun t' h => ensures_pure ⟨?_, ?_⟩
    · simp only [runs, Behavior.follow_or, Behavior.follow_andThen hK, Behavior.follow_check]
      exact Behavior.or_mono (Behavior.andThen_mono le_rfl h.1) le_rfl
    · exact .of_cons rfl rfl h.2
  | ifElse p t e c =>
    refine ensures_bind (mapGotosM_ensures hK t
      (fun x hx => hlabels x (List.mem_cons_of_mem _ (List.mem_append_left _ hx)))
      fun l c h => hf l c (List.mem_cons_of_mem _ (List.mem_append_left _ h))) fun t' ht => ?_
    refine ensures_bind (mapGotosM_ensures hK e
      (fun x hx => hlabels x (List.mem_cons_of_mem _ (List.mem_append_right _ hx)))
      fun l c h => hf l c (List.mem_cons_of_mem _ (List.mem_append_right _ h)))
      fun e' he => ensures_pure ⟨?_, ?_⟩
    · simp only [runs, Behavior.follow_or, Behavior.follow_andThen hK, Behavior.follow_check]
      exact Behavior.or_mono (Behavior.andThen_mono le_rfl ht.1)
        (Behavior.andThen_mono le_rfl he.1)
    · refine .of_cons rfl rfl fun n x c hx => ?_
      exact (List.mem_append.1 hx).elim (ht.2 n x c) (he.2 n x c)
  | forLoop init cond next body c =>
    refine ensures_bind (mapGotosM_ensures hK body
      (fun x hx => hlabels x (List.mem_cons_of_mem _ hx))
      fun l c h => hf l c (List.mem_cons_of_mem _ h)) fun body' h => ensures_pure ⟨?_, ?_⟩
    · -- What a jump leads to returns, so a jump out of the loop can be followed inside it.
      simp only [runs, Behavior.follow_andThen hK, Behavior.follow_loop hK, Behavior.follow_turn hK]
      rw [Behavior.follow_only (by simp)]
      exact Behavior.andThen_mono le_rfl (Behavior.loop_mono (Behavior.turn_mono h.1))
    · exact .of_cons rfl rfl h.2
  | whileLoop p body c =>
    refine ensures_bind (mapGotosM_ensures hK body
      (fun x hx => hlabels x (List.mem_cons_of_mem _ hx))
      fun l c h => hf l c (List.mem_cons_of_mem _ h)) fun body' h => ensures_pure ⟨?_, ?_⟩
    · simp only [runs, Behavior.follow_loop hK, Behavior.follow_turn hK]
      exact Behavior.loop_mono (Behavior.turn_mono h.1)
    · exact .of_cons rfl rfl h.2
  | doWhile p body c =>
    refine ensures_bind (mapGotosM_ensures hK body
      (fun x hx => hlabels x (List.mem_cons_of_mem _ hx))
      fun l c h => hf l c (List.mem_cons_of_mem _ h)) fun body' h => ensures_pure ⟨?_, ?_⟩
    · simp only [runs, Behavior.follow_loop hK, Behavior.follow_turnLast hK]
      exact Behavior.loop_mono (Behavior.turnLast_mono h.1)
    · exact .of_cons rfl rfl h.2
  | goto l c =>
    simp only [runs, Behavior.follow_jumped]
    exact hf l c (by simp [substmts])
  | label n s c => exact absurd (hlabels (label n s c) List.mem_cons_self) (by simp [isLabelled])
  | decl _ _ | expr _ _ | ret _ _ | brk _ | cont _ | empty _ =>
    refine ensures_pure ⟨?_, .of_cons rfl rfl (by simp)⟩
    simp only [runs]
    rw [Behavior.follow_only (by simp)]

theorem mapGotosListM_ensures (hK : ∀ l, (K l).Returns) (items : List Stmt)
    (hlabels : ∀ s ∈ items, s.LabelFree)
    (hf : ∀ l c, goto l c ∈ substmtsList items → Ensures (f l c) (StandsFor K l)) :
    Ensures (mapGotosListM f items) fun items' =>
      runsList items' ≤ (runsList items).follow K ∧ ∀ s ∈ items', s.MarkedBy K := by
  cases items with
  | nil =>
    refine ensures_pure ⟨?_, by simp⟩
    simp only [runsList]
    rw [Behavior.follow_only (by simp)]
  | cons first rest =>
    refine ensures_bind (mapGotosM_ensures hK first (hlabels first List.mem_cons_self)
      fun l c h => hf l c (List.mem_append_left _ h)) fun first' hfirst => ?_
    refine ensures_bind (mapGotosListM_ensures hK rest
      (fun s hs => hlabels s (List.mem_cons_of_mem _ hs))
      fun l c h => hf l c (List.mem_append_right _ h)) fun rest' hrest => ensures_pure ⟨?_, ?_⟩
    · simp only [runsList, Behavior.follow_andThen hK]
      exact Behavior.andThen_mono hfirst.1 hrest.1
    · exact List.forall_mem_cons.2 ⟨hfirst.2, hrest.2⟩

end

end Gotos

end Stmt

namespace Block

/-- The code captured for every label that is jumped to leaves: its runs end in a return or in a
further jump. -/
def JumpsLeave (b : Block) : Prop :=
  ∀ l code, b.HasJump l → b.captures.lookup l = some code →
    ∀ t o, Stmt.runsList code t o → o.Leaves

/-- Captured code with a return among its items, and without exits from loops around it, leaves. -/
theorem leaves_of_mem_isReturn {code : List Stmt} (hreturn : ∃ s ∈ code, s.unlabelled.isReturn)
    (hexits : Stmt.exitsInLoopsList code) {t : List Event} {o : Ending}
    (h : Stmt.runsList code t o) : o.Leaves := by
  have hkeeps := Stmt.runsList_keepsLoop code hexits t o h
  cases o with
  | done => exact absurd h (Stmt.not_done_of_mem_isReturn hreturn t)
  | broke => exact absurd rfl hkeeps.1
  | continued => exact absurd rfl hkeeps.2
  | returned => exact .inl rfl
  | jumped l => exact .inr ⟨l, rfl⟩

variable {b : Block} {l : String} {code : List Stmt}

/-- Code that leaves, with its jumps followed, runs what the body runs from the label on. -/
theorem follow_le_returning (hlookup : b.captures.lookup l = some code)
    (hleaves : ∀ t o, Stmt.runsList code t o → o.Leaves) :
    (Stmt.runsList code).follow b.returning ≤ b.returning l := by
  obtain ⟨⟨name, labelled⟩, hentry, heq⟩ := List.mem_map.1 (mem_captures_of_lookup hlookup)
  cases heq
  have henter {t : List Event} {o : Ending} (h : Stmt.runsList (Stmt.dropLabelsList labelled) t o) :
      Stmt.enteredList l b.items t o := by
    refine Stmt.enteredList_of_mem_captures b.items (List.mem_append.1 hentry) ?_ (hleaves t o h)
    rwa [Stmt.runsList_dropLabelsList] at h
  rintro t o (⟨h, hjump⟩ | ⟨m, t₁, t₂, h, ⟨rfl, hm⟩, rfl⟩)
  · have ho : o = .returned := (hleaves t o h).resolve_right fun ⟨m, hm⟩ => hjump m hm
    exact ⟨ho, .finish (henter h) (.inr ho)⟩
  · exact ⟨rfl, .jump (henter h) hm⟩

end Block

/-- The block that replaces a jump runs what the body runs from the label on, and so does every
block in it that replaces a further jump. -/
theorem expandMarked_ensures {b : Block} (hleave : b.JumpsLeave) (function : String) (fuel : Nat)
    (active : List String) (l : String) (c : Coord) (hjump : b.HasJump l) :
    Ensures (expandMarked b.captures function fuel active l c)
      (Stmt.StandsFor b.returning l) := by
  induction fuel generalizing active l c with
  | zero =>
    intro n result hresult
    cases hresult
  | succ fuel ih =>
    unfold expandMarked
    split
    · intro n result hresult
      cases hresult
    · split
      · intro n result hresult
        cases hresult
      · next code hlookup =>
        have hcopy := Stmt.mapGotosListM_ensures b.returning_returns code
          (Block.labelFree_of_lookup hlookup) fun m c' hgoto =>
            ih (l :: active) m c' (Block.hasJump_of_lookup hlookup hgoto)
        refine ensures_bind hcopy fun items hitems => ?_
        refine ensures_bind (P := fun _ => True) (fun n result hresult => trivial) fun _ _ => ?_
        have hruns : (Stmt.block items none c).runs ≤ b.returning l :=
          hitems.1.trans (Block.follow_le_returning hlookup (hleave l code hjump hlookup))
        refine ensures_pure ⟨hruns, fun n x c' hx => ?_⟩
        rcases List.mem_cons.1 hx with heq | hx
        · cases heq
          exact ⟨hruns, items, none, c, rfl⟩
        · have hblock : (Stmt.block items none c).MarkedBy b.returning :=
            .of_cons rfl rfl (Stmt.MarkedBy.list hitems.2)
          exact hblock n x c' hx

/-! ### Cutting blocks off after a return -/

namespace Stmt

variable {K : String → Behavior}

/-- Marks stand on blocks, so dropping them does not bring out a return. -/
theorem MarkedBy.isReturn_dropLabels {s : Stmt} (h : s.MarkedBy K) :
    s.dropLabels.isReturn = s.isReturn := by
  cases s with
  | label n x c =>
    obtain ⟨-, items, b, c', rfl⟩ := h n x c List.mem_cons_self
    rfl
  | _ => rfl

theorem dropLabels_cutItems {items : List Stmt} (h : ∀ s ∈ items, s.MarkedBy K) (c : Coord) :
    dropLabelsList (Block.cutAfterReturn ⟨items, c⟩).value.items =
      (Block.cutAfterReturn ⟨dropLabelsList items, c⟩).value.items := by
  simp only [Block.cutAfterReturn, dropLabelsList_eq_map]
  induction items with
  | nil => rfl
  | cons s rest ih =>
    have hs := (h s List.mem_cons_self).isReturn_dropLabels
    have ih := ih fun s hs => h s (List.mem_cons_of_mem _ hs)
    by_cases hreturn : s.isReturn
    · simp [hs, hreturn]
    · simpa [hs, hreturn] using ih

mutual

theorem MarkedBy.cut {s : Stmt} (h : s.MarkedBy K) :
    (s.mapBlocksM Block.cutAfterReturn).value.MarkedBy K := by
  cases s with
  | block items b c =>
    refine .of_cons rfl rfl (MarkedBy.list fun s hs => ?_)
    exact MarkedBy.cutList items h.of_block s (Block.subset_cutAfterReturn _ hs)
  | ifThen p t c =>
    exact .of_cons rfl rfl (MarkedBy.cut fun n x c hx => h n x c (List.mem_cons_of_mem _ hx))
  | ifElse p t e c =>
    refine .of_cons rfl rfl fun n x c hx => ?_
    rcases List.mem_append.1 hx with hx | hx
    · refine MarkedBy.cut (s := t) (fun n x c hx => h n x c ?_) n x c hx
      exact List.mem_cons_of_mem _ (List.mem_append_left _ hx)
    · refine MarkedBy.cut (s := e) (fun n x c hx => h n x c ?_) n x c hx
      exact List.mem_cons_of_mem _ (List.mem_append_right _ hx)
  | forLoop _ _ _ body _ | whileLoop _ body _ | doWhile _ body _ =>
    exact .of_cons rfl rfl (MarkedBy.cut fun n x c hx => h n x c (List.mem_cons_of_mem _ hx))
  | label m x c =>
    intro n y c' hy
    rcases List.mem_cons.1 hy with heq | hy
    · cases heq
      obtain ⟨hruns, items, b, c', rfl⟩ := h m x c List.mem_cons_self
      refine ⟨?_, _, _, _, rfl⟩
      rw [runs_cutAfterReturn]
      exact hruns
    · refine MarkedBy.cut (s := x) (fun n x c hx => h n x c ?_) n y c' hy
      exact List.mem_cons_of_mem _ hx
  | decl _ _ | expr _ _ | ret _ _ | brk _ | cont _ | goto _ _ | empty _ => exact h

theorem MarkedBy.cutList (items : List Stmt) (h : ∀ s ∈ items, s.MarkedBy K) :
    ∀ s ∈ (mapBlocksListM Block.cutAfterReturn items).value, s.MarkedBy K := by
  cases items with
  | nil => exact h
  | cons first rest =>
    obtain ⟨hfirst, hrest⟩ := List.forall_mem_cons.1 h
    exact List.forall_mem_cons.2 ⟨hfirst.cut, MarkedBy.cutList rest hrest⟩

end

mutual

/-- Marks can be dropped before or after blocks are cut off. -/
theorem dropLabels_cut (s : Stmt) (h : s.MarkedBy K) :
    (s.mapBlocksM Block.cutAfterReturn).value.dropLabels =
      (s.dropLabels.mapBlocksM Block.cutAfterReturn).value := by
  cases s with
  | block items b c =>
    have hitems := dropLabelsList_cut items h.of_block
    simp only [mapBlocksM, dropLabels, Counted.value_bind, Counted.value_pure, ← hitems]
    rw [dropLabels_cutItems (MarkedBy.cutList items h.of_block)]
    rfl
  | ifThen p t c =>
    have ht := dropLabels_cut t fun n x c hx => h n x c (List.mem_cons_of_mem _ hx)
    simp only [mapBlocksM, dropLabels, Counted.value_bind, Counted.value_pure, ht]
  | ifElse p t e c =>
    have ht := dropLabels_cut t fun n x c hx =>
      h n x c (List.mem_cons_of_mem _ (List.mem_append_left _ hx))
    have he := dropLabels_cut e fun n x c hx =>
      h n x c (List.mem_cons_of_mem _ (List.mem_append_right _ hx))
    simp only [mapBlocksM, dropLabels, Counted.value_bind, Counted.value_pure, ht, he]
  | forLoop _ _ _ body _ | whileLoop _ body _ | doWhile _ body _ =>
    have hbody := dropLabels_cut body fun n x c hx => h n x c (List.mem_cons_of_mem _ hx)
    simp only [mapBlocksM, dropLabels, Counted.value_bind, Counted.value_pure, hbody]
  | label m x c =>
    have hx := dropLabels_cut x fun n x c hx => h n x c (List.mem_cons_of_mem _ hx)
    simp only [mapBlocksM, dropLabels, Counted.value_bind, Counted.value_pure, hx]
  | decl _ _ | expr _ _ | ret _ _ | brk _ | cont _ | goto _ _ | empty _ => rfl

theorem dropLabelsList_cut (items : List Stmt) (h : ∀ s ∈ items, s.MarkedBy K) :
    dropLabelsList (mapBlocksListM Block.cutAfterReturn items).value =
      (mapBlocksListM Block.cutAfterReturn (dropLabelsList items)).value := by
  cases items with
  | nil => rfl
  | cons first rest =>
    obtain ⟨hfirst, hrest⟩ := List.forall_mem_cons.1 h
    simp only [mapBlocksListM, dropLabelsList, Counted.value_bind, Counted.value_pure,
      dropLabels_cut first hfirst, dropLabelsList_cut rest hrest]

end

end Stmt

/-! ### The pass -/

namespace FuncDef

variable {f g : FuncDef} {tally : Tally}

/-- What a marked block of the marked body runs, and the new body without marks. -/
theorem exists_markedBody (h : f.eliminateJumps = .ok (g, tally)) (hleave : f.body.JumpsLeave) :
    ∃ marked, f.markedBody = .ok marked ∧ Stmt.dropLabelsList marked.items = g.body.items ∧
      ∀ s ∈ marked.items, s.MarkedBy f.body.returning := by
  rw [eliminateJumps] at h
  rw [markedBody]
  by_cases hany : f.body.stmts.any Stmt.isJump
  · rw [if_pos hany] at h ⊢
    have hlabels := Stmt.dropLabelsList_labelFree f.body.items
    have hexpand := Stmt.mapGotosListM_dropLabels
      (expandGoto_eq_expandMarked f.body f.name (f.body.captures.length + 1) []) _ hlabels
    have hmarked := Stmt.mapGotosListM_ensures f.body.returning_returns _ hlabels fun l c hgoto =>
      expandMarked_ensures hleave f.name (f.body.captures.length + 1) [] l c
        ⟨c, Stmt.goto_mem_of_mem_dropLabelsList _ hgoto⟩
    -- With and without marks the jumps are replaced alike, so both succeed or both fail.
    simp only [hexpand, StateT.run_map] at h
    cases hrun : (Stmt.mapGotosListM
        (expandMarked f.body.captures f.name (f.body.captures.length + 1) [])
        (Stmt.dropLabelsList f.body.items)).run 0 with
    | error e =>
      rw [hrun] at h
      cases h
    | ok result =>
      obtain ⟨items, replaced⟩ := result
      rw [hrun] at h
      cases h
      have hitems := (hmarked 0 (items, replaced) hrun).2
      dsimp only
      rw [hrun]
      refine ⟨_, rfl, ?_, fun s hs => ?_⟩
      · have hlist := Stmt.dropLabelsList_cut items hitems
        have hcut := Stmt.dropLabels_cutItems (Stmt.MarkedBy.cutList items hitems) f.body.coord
        rw [hlist] at hcut
        exact hcut
      · exact Stmt.MarkedBy.cutList items hitems s (Block.subset_cutAfterReturn _ hs)
  · -- Without jumps the body stays as it is, and it has no marks.
    rw [if_neg hany] at h ⊢
    cases h
    have hfree : ∀ x ∈ f.body.stmts, x.isJump = false := by simpa using hany
    refine ⟨f.body, rfl, ?_, fun s hs n x c hx => ?_⟩
    · refine Stmt.dropLabelsList_eq_self f.body.items fun x hx => ?_
      have hx := hfree x hx
      cases x <;> first | rfl | cases hx
    · cases hfree _ (Stmt.mem_substmtsList.2 ⟨s, hs, hx⟩)

/-- After a replaced jump nothing runs but what follows its label. If the code captured for the
labels that are jumped to leaves, then whatever the new body runs from a block that replaces a jump
to the end of the function, the body can run from the label to the end of the function. -/
theorem tracesFrom_markedBody (h : f.eliminateJumps = .ok (g, tally))
    (hleave : f.body.JumpsLeave) :
    ∃ marked, f.markedBody = .ok marked ∧ Stmt.dropLabelsList marked.items = g.body.items ∧
      ∀ l t, marked.TracesFrom l t → f.body.TracesFrom l t := by
  obtain ⟨marked, hmarked, hitems, hruns⟩ := exists_markedBody h hleave
  refine ⟨marked, hmarked, hitems, fun l t htrace => ?_⟩
  have hentered : Stmt.enteredList l marked.items ≤ f.body.returning l :=
    Stmt.enteredList_le f.body.returning_returns marked.items fun x c hx =>
      (Stmt.MarkedBy.list hruns l x c hx).1
  cases htrace with
  | finish hrun _ => exact (hentered _ _ hrun).2
  | jump hrun _ => cases (hentered _ _ hrun).1

/-- A jump into a loop and jumps out of it, where the code for the first ends in a jump and not in
a return: `if (x) goto in; while (x) { if (x) goto out; g(x); in: h(x); goto out; } out: return;`.
-/
def jumpsIntoLoop : FuncDef where
  decl := .prototype "f" .void [.ofScalar "x" .int none]
  body.items := [
    .ifThen (.id "x" none) (.goto "in" none) none,
    .whileLoop (.id "x" none)
      (.block [
        .ifThen (.id "x" none) (.goto "out" none) none,
        .expr (.call "g" [.id "x" none] none) none,
        .label "in" (.expr (.call "h" [.id "x" none] none) none) none,
        .goto "out" none] none none) none,
    .label "out" (.ret none none) none]
  body.coord := none
  coord := none

theorem jumpsLeave_jumpsIntoLoop : jumpsIntoLoop.body.JumpsLeave := by
  rintro l code ⟨c, hgoto⟩ hlookup t o hrun
  have hl : l = "in" ∨ l = "out" := by
    simp only [jumpsIntoLoop, Block.stmts, Stmt.substmtsList, Stmt.substmts] at hgoto
    simp at hgoto
    grind
  rcases hl with rfl | rfl
  · obtain rfl := Option.some.inj (hlookup.symm.trans rfl)
    rcases hrun with ⟨⟨-, rfl⟩, hne⟩ | ⟨t₁, t₂, -, hrun, -⟩
    · exact absurd rfl hne
    · rcases hrun with ⟨⟨-, rfl⟩, -⟩ | ⟨t₁, t₂, ⟨-, hdone⟩, -⟩
      · exact .inr ⟨_, rfl⟩
      · cases hdone
  · obtain rfl := Option.some.inj (hlookup.symm.trans rfl)
    exact Block.leaves_of_mem_isReturn (by decide) (by decide) hrun

theorem tracesFrom_markedBody_jumpsIntoLoop :
    jumpsIntoLoop.body.JumpsLeave ∧ ∃ g tally, jumpsIntoLoop.eliminateJumps = .ok (g, tally) ∧
      ∃ marked, jumpsIntoLoop.markedBody = .ok marked ∧
        Stmt.dropLabelsList marked.items = g.body.items ∧
        ∀ l t, marked.TracesFrom l t → jumpsIntoLoop.body.TracesFrom l t :=
  ⟨jumpsLeave_jumpsIntoLoop, _, _, rfl, tracesFrom_markedBody rfl jumpsLeave_jumpsIntoLoop⟩

/-- A function without a return: `if (x) goto out; g(x); out: h(x);`. -/
def fallsThrough : FuncDef where
  decl := .prototype "f" .void [.ofScalar "x" .int none]
  body.items := [
    .ifThen (.id "x" none) (.goto "out" none) none,
    .expr (.call "g" [.id "x" none] none) none,
    .label "out" (.expr (.call "h" [.id "x" none] none) none) none]
  body.coord := none
  coord := none

/-- The runs from the label call `h` and come to the end. -/
theorem enteredList_fallsThrough {t : List Event} {o : Ending}
    (h : Stmt.enteredList "out" fallsThrough.body.items t o) : t.length = 1 ∧ o = .done := by
  rcases h with (⟨hnever, -⟩ | ⟨t₁, t₂, hnever, -⟩) | (⟨hnever, -⟩ | ⟨t₁, t₂, hnever, -⟩) | h |
    hnever
  · cases hnever
  · cases hnever
  · cases hnever
  · cases hnever
  · rcases h with ⟨⟨-, -, rfl⟩ | hnever, hne⟩ | ⟨t₁, t₂, ⟨-, rfl, -⟩ | hnever, ⟨rfl, rfl⟩, rfl⟩
    · exact absurd rfl hne
    · cases hnever
    · exact ⟨rfl, rfl⟩
    · cases hnever
  · cases hnever

/-- After the jump `g(x)` is called, which the jump was to skip. -/
theorem markedBody_fallsThrough :
    ∃ g tally marked t, fallsThrough.eliminateJumps = .ok (g, tally) ∧
      fallsThrough.markedBody = .ok marked ∧ Stmt.dropLabelsList marked.items = g.body.items ∧
      marked.TracesFrom "out" t ∧ ¬ fallsThrough.body.TracesFrom "out" t := by
  let call (name : String) : Event := .stmt (.expr (.call name [.id "x" none] none) none)
  refine ⟨_, _, _, [call "h", call "g", call "h"], rfl, rfl, rfl, ?_, ?_⟩
  · have hlast : Stmt.runsList [.expr (.call "h" [.id "x" none] none) none] [call "h"] .done :=
      .inr ⟨[call "h"], [], ⟨rfl, rfl⟩, ⟨rfl, rfl⟩, rfl⟩
    have hrest : Stmt.runsList
        [.expr (.call "g" [.id "x" none] none) none, .expr (.call "h" [.id "x" none] none) none]
        [call "g", call "h"] .done :=
      .inr ⟨[call "g"], [call "h"], ⟨rfl, rfl⟩, hlast, rfl⟩
    exact .finish (.inl (.inr ⟨[call "h"], _, .inl ⟨rfl, hlast⟩, hrest, rfl⟩)) (.inl rfl)
  · intro h
    generalize ht : [call "h", call "g", call "h"] = t at h
    cases h with
    | finish h _ =>
      have hlength := (enteredList_fallsThrough h).1
      rw [← ht] at hlength
      cases hlength
    | jump h _ => cases (enteredList_fallsThrough h).2

end FuncDef

end MathKernel
