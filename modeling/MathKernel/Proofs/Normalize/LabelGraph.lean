import MathKernel.Proofs.Normalize.Jumps

/-!
# When jumps can be eliminated

The code that a label stands for may jump to further labels, so the labels of a body form a graph.
Jumps are eliminated exactly if each has its label in the body and this graph has no cycle, and
then no jump and no label is left. Otherwise the error names a label that is missing or one that
leads back to itself.

A label is replaced while others are being replaced, namely those that led to it. These are
different labels of the body, so the depth of replacements is bounded by the number of labels,
although the code itself may grow with every copy.

## Main definitions

* `Block.LeadsTo` — the graph of labels
* `Block.JumpsDeclared`, `Block.LabelsAcyclic` — what elimination asks of a body
* `Block.EndsAtReturn` — nothing stands after a return
* `Expansion.Settles` — what holds of the result or of the error of an expansion

## Main results

* `expandGoto_settles` — the copy for a label, or what is wrong with the label
* `expandGoto_eq_of_lt` — the bound on the depth is never reached
* `FuncDef.eliminateJumps_exact` — when elimination succeeds, and what it leaves
-/

namespace MathKernel

/-! ### Labels and their code -/

namespace Stmt

variable {l : String} {c : Coord} {items code : List Stmt}

mutual

/-- Dropping labels keeps jumps. -/
theorem goto_mem_dropLabels (s : Stmt) (h : goto l c ∈ s.substmts) :
    goto l c ∈ s.dropLabels.substmts := by
  cases s with
  | block items b c' =>
    have h := (List.mem_cons.1 h).resolve_left (by simp)
    exact List.mem_cons_of_mem _ (goto_mem_dropLabelsList items h)
  | ifThen p t c' =>
    have h := (List.mem_cons.1 h).resolve_left (by simp)
    exact List.mem_cons_of_mem _ (goto_mem_dropLabels t h)
  | ifElse p t e c' =>
    rcases List.mem_append.1 ((List.mem_cons.1 h).resolve_left (by simp)) with h | h
    · exact List.mem_cons_of_mem _ (List.mem_append_left _ (goto_mem_dropLabels t h))
    · exact List.mem_cons_of_mem _ (List.mem_append_right _ (goto_mem_dropLabels e h))
  | forLoop _ _ _ body _ | whileLoop _ body _ | doWhile _ body _ =>
    have h := (List.mem_cons.1 h).resolve_left (by simp)
    exact List.mem_cons_of_mem _ (goto_mem_dropLabels body h)
  | label n s c' => exact goto_mem_dropLabels s ((List.mem_cons.1 h).resolve_left (by simp))
  | decl _ _ | expr _ _ | ret _ _ | brk _ | cont _ | goto _ _ | empty _ => exact h

theorem goto_mem_dropLabelsList (items : List Stmt) (h : goto l c ∈ substmtsList items) :
    goto l c ∈ substmtsList (dropLabelsList items) := by
  cases items with
  | nil => exact h
  | cons first rest =>
    rcases List.mem_append.1 h with h | h
    · exact List.mem_append_left _ (goto_mem_dropLabels first h)
    · exact List.mem_append_right _ (goto_mem_dropLabelsList rest h)

end

theorem exists_label_of_mem_labels {s : Stmt} (h : l ∈ s.labels) :
    ∃ x c, label l x c ∈ s.substmts := by
  fun_induction labels s with
  | case1 n s c ih =>
    rcases List.mem_cons.1 h with rfl | h
    · exact ⟨s, c, List.mem_cons_self⟩
    · obtain ⟨x, c', hx⟩ := ih h
      exact ⟨x, c', List.mem_cons_of_mem _ hx⟩
  | case2 s hs => cases h

mutual

/-- Every label inside a statement stands for some code. -/
theorem mem_captures_of_label (s : Stmt) {x : Stmt} (h : label l x c ∈ s.substmts) :
    ∃ code, (l, code) ∈ s.captures := by
  cases s with
  | block items b c' =>
    have h := (List.mem_cons.1 h).resolve_left (by simp)
    obtain ⟨code, hcode⟩ := mem_capturesList_of_label items h
    exact ⟨code, List.mem_append_right _ hcode⟩
  | ifThen p t c' => exact mem_captures_of_label t ((List.mem_cons.1 h).resolve_left (by simp))
  | ifElse p t e c' =>
    rcases List.mem_append.1 ((List.mem_cons.1 h).resolve_left (by simp)) with h | h
    · obtain ⟨code, hcode⟩ := mem_captures_of_label t h
      exact ⟨code, List.mem_append_left _ hcode⟩
    · obtain ⟨code, hcode⟩ := mem_captures_of_label e h
      exact ⟨code, List.mem_append_right _ hcode⟩
  | forLoop _ _ _ body _ | whileLoop _ body _ | doWhile _ body _ =>
    exact mem_captures_of_label body ((List.mem_cons.1 h).resolve_left (by simp))
  | label n s c' =>
    rcases List.mem_cons.1 h with heq | h
    · cases heq
      exact ⟨[x], List.mem_cons_self⟩
    · obtain ⟨code, hcode⟩ := mem_captures_of_label s h
      exact ⟨code, List.mem_cons_of_mem _ hcode⟩
  | decl _ _ | expr _ _ | ret _ _ | brk _ | cont _ | goto _ _ | empty _ => simp [substmts] at h

theorem mem_capturesList_of_label (items : List Stmt) {x : Stmt}
    (h : label l x c ∈ substmtsList items) : ∃ code, (l, code) ∈ capturesList items := by
  cases items with
  | nil => cases h
  | cons first rest =>
    rcases List.mem_append.1 h with h | h
    · obtain ⟨code, hcode⟩ := mem_captures_of_label first h
      exact ⟨code, List.mem_append_left _ hcode⟩
    · obtain ⟨code, hcode⟩ := mem_capturesList_of_label rest h
      exact ⟨code, List.mem_append_right _ hcode⟩

end

/-- What a captured entry for `l` says of the statements around it: `l` is one of their labels, and
the code is part of them. -/
def IsCaptured (l : String) (code around : List Stmt) : Prop :=
  (∃ x c, label l x c ∈ around) ∧ substmtsList code ⊆ around

theorem IsCaptured.mono {around wider : List Stmt} (h : IsCaptured l code around)
    (hsub : around ⊆ wider) : IsCaptured l code wider := by
  obtain ⟨⟨x, c, hx⟩, hcode⟩ := h
  exact ⟨⟨x, c, hsub hx⟩, fun y hy => hsub (hcode hy)⟩

theorem isCaptured_of_mem_itemCaptures (h : (l, code) ∈ itemCaptures items) :
    IsCaptured l code (substmtsList items) := by
  induction items with
  | nil => cases h
  | cons s rest ih =>
    rcases List.mem_append.1 h with h | h
    · obtain ⟨name, hname, heq⟩ := List.mem_map.1 h
      cases heq
      obtain ⟨x, c, hx⟩ := exists_label_of_mem_labels hname
      refine ⟨⟨x, c, List.mem_append_left _ hx⟩, fun y hy => ?_⟩
      obtain ⟨item, hitem, hy⟩ := mem_substmtsList.1 hy
      exact mem_substmtsList.2 ⟨item, takeThroughReturn_subset _ hitem, hy⟩
    · exact (ih h).mono (List.subset_append_right _ _)

mutual

theorem isCaptured_of_mem_captures (s : Stmt) (h : (l, code) ∈ s.captures) :
    IsCaptured l code s.substmts := by
  cases s with
  | block items b c =>
    have hitems : IsCaptured l code (substmtsList items) := by
      rcases List.mem_append.1 h with h | h
      · exact isCaptured_of_mem_itemCaptures h
      · exact isCaptured_of_mem_capturesList items h
    exact hitems.mono (List.subset_cons_self _ _)
  | ifThen p t c => exact (isCaptured_of_mem_captures t h).mono (List.subset_cons_self _ _)
  | ifElse p t e c =>
    rcases List.mem_append.1 h with h | h
    · refine (isCaptured_of_mem_captures t h).mono fun x hx => ?_
      exact List.mem_cons_of_mem _ (List.mem_append_left _ hx)
    · refine (isCaptured_of_mem_captures e h).mono fun x hx => ?_
      exact List.mem_cons_of_mem _ (List.mem_append_right _ hx)
  | forLoop _ _ _ body _ | whileLoop _ body _ | doWhile _ body _ =>
    exact (isCaptured_of_mem_captures body h).mono (List.subset_cons_self _ _)
  | label n s c =>
    rcases List.mem_cons.1 h with heq | h
    · cases heq
      refine ⟨⟨s, c, List.mem_cons_self⟩, fun x hx => List.mem_cons_of_mem _ ?_⟩
      simpa [substmtsList] using hx
    · exact (isCaptured_of_mem_captures s h).mono (List.subset_cons_self _ _)
  | decl _ _ | expr _ _ | ret _ _ | brk _ | cont _ | goto _ _ | empty _ => cases h

theorem isCaptured_of_mem_capturesList (items : List Stmt) (h : (l, code) ∈ capturesList items) :
    IsCaptured l code (substmtsList items) := by
  cases items with
  | nil => cases h
  | cons first rest =>
    rcases List.mem_append.1 h with h | h
    · exact (isCaptured_of_mem_captures first h).mono (List.subset_append_left _ _)
    · exact (isCaptured_of_mem_capturesList rest h).mono (List.subset_append_right _ _)

end

end Stmt

namespace Block

variable {b : Block} {l m : String} {code : List Stmt}

/-- The body has the label `l`. -/
def HasLabel (b : Block) (l : String) : Prop :=
  ∃ s c, Stmt.label l s c ∈ b.stmts

/-- The body has a jump to `l`. -/
def HasJump (b : Block) (l : String) : Prop :=
  ∃ c, Stmt.goto l c ∈ b.stmts

/-- The code captured for `l` has a jump to `m`. -/
def LeadsTo (b : Block) (l m : String) : Prop :=
  ∃ code c, b.captures.lookup l = some code ∧ Stmt.goto m c ∈ Stmt.substmtsList code

/-- Every jump has its label in the body. -/
def JumpsDeclared (b : Block) : Prop :=
  ∀ l, b.HasJump l → b.HasLabel l

/-- No label leads back to itself. -/
def LabelsAcyclic (b : Block) : Prop :=
  ∀ l, ¬ Relation.TransGen b.LeadsTo l l

/-- Whether nothing stands after a return among the items. -/
def EndsAtReturn (b : Block) : Prop :=
  ∀ before s after, b.items = before ++ s :: after → s.isReturn → after = []

/-- An entry for `l` stands for code of the body without its labels. -/
theorem exists_isCaptured (h : (l, code) ∈ b.captures) :
    ∃ labelled, code = Stmt.dropLabelsList labelled ∧ Stmt.IsCaptured l labelled b.stmts := by
  obtain ⟨⟨name, labelled⟩, hentry, heq⟩ := List.mem_map.1 h
  cases heq
  refine ⟨labelled, rfl, ?_⟩
  rcases List.mem_append.1 hentry with hentry | hentry
  · exact Stmt.isCaptured_of_mem_itemCaptures hentry
  · exact Stmt.isCaptured_of_mem_capturesList b.items hentry

theorem mem_captures_of_lookup (h : b.captures.lookup l = some code) : (l, code) ∈ b.captures := by
  obtain ⟨before, after, hcaptures, -⟩ := List.lookup_eq_some_iff.1 h
  rw [hcaptures]
  simp

theorem hasLabel_of_lookup (h : b.captures.lookup l = some code) : b.HasLabel l := by
  obtain ⟨labelled, -, hlabel, -⟩ := exists_isCaptured (mem_captures_of_lookup h)
  exact hlabel

/-- A label without captured code is none of the body. -/
theorem not_hasLabel_of_lookup (h : b.captures.lookup l = none) : ¬ b.HasLabel l := by
  rintro ⟨s, c, hlabel⟩
  obtain ⟨code, hcode⟩ := Stmt.mem_capturesList_of_label b.items hlabel
  have hentry : (l, Stmt.dropLabelsList code) ∈ b.captures :=
    List.mem_map.2 ⟨(l, code), List.mem_append_right _ hcode, rfl⟩
  have hnone := List.lookup_eq_none_iff.1 h _ hentry
  simp at hnone

/-- A jump in captured code is one of the body. -/
theorem hasJump_of_lookup {c : Coord} (h : b.captures.lookup l = some code)
    (hgoto : Stmt.goto m c ∈ Stmt.substmtsList code) : b.HasJump m := by
  obtain ⟨labelled, rfl, -, hsub⟩ := exists_isCaptured (mem_captures_of_lookup h)
  exact ⟨c, hsub (Stmt.goto_mem_of_mem_dropLabelsList _ hgoto)⟩

theorem LeadsTo.hasJump (h : b.LeadsTo l m) : b.HasJump m := by
  obtain ⟨code, c, hcode, hgoto⟩ := h
  exact hasJump_of_lookup hcode hgoto

/-- A label on a cycle is the target of some jump. -/
theorem hasJump_of_transGen (h : Relation.TransGen b.LeadsTo l m) : b.HasJump m := by
  obtain ⟨k, -, hlast⟩ := Relation.TransGen.tail'_iff.1 h
  exact hlast.hasJump

/-- Captured code has no labels of its own. -/
theorem labelFree_of_lookup (h : b.captures.lookup l = some code) :
    ∀ s ∈ code, s.LabelFree := by
  obtain ⟨labelled, rfl, -⟩ := exists_isCaptured (mem_captures_of_lookup h)
  exact Stmt.dropLabelsList_labelFree labelled

theorem mem_keys_of_lookup (h : b.captures.lookup l = some code) :
    l ∈ b.captures.map Prod.fst :=
  List.mem_map_of_mem (mem_captures_of_lookup h)

end Block

/-! ### Results and errors of an expansion -/

/-- Whether an expansion gives a value with `P` or an error with `E`, from every count. -/
def Expansion.Settles {α : Type} (x : Expansion α) (P : α → Prop) (E : NormalizeError → Prop) :
    Prop :=
  ∀ n, (∃ a n', x n = .ok (a, n') ∧ P a) ∨ ∃ e, x n = .error e ∧ E e

namespace Expansion.Settles

variable {α β : Type} {P : α → Prop} {Q : β → Prop} {E : NormalizeError → Prop}

theorem pure {a : α} (h : P a) : Settles (Pure.pure a) P E :=
  fun n => .inl ⟨a, n, rfl, h⟩

theorem throw {e : NormalizeError} (h : E e) : Settles (MonadExcept.throw e) P E :=
  fun _ => .inr ⟨e, rfl, h⟩

theorem bind {x : Expansion α} {g : α → Expansion β} (hx : x.Settles P E)
    (hg : ∀ a, P a → (g a).Settles Q E) : (x >>= g).Settles Q E := by
  intro n
  change (∃ b n', (x n >>= fun p => g p.1 p.2) = _ ∧ _) ∨
    ∃ e, (x n >>= fun p => g p.1 p.2) = _ ∧ _
  rcases hx n with ⟨a, n₁, ha, hP⟩ | ⟨e, he, hE⟩
  · rw [ha]
    exact hg a hP n₁
  · rw [he]
    exact .inr ⟨e, rfl, hE⟩

end Expansion.Settles

namespace Stmt

variable {f : String → Coord → Expansion Stmt} {G : String → Prop} {E : NormalizeError → Prop}

mutual

/-- Replacing the jumps of a statement leaves none and tells of each what its replacement told. -/
theorem mapGotosM_settles (s : Stmt) (hlabels : s.LabelFree)
    (hf : ∀ l c, goto l c ∈ s.substmts → (f l c).Settles (fun s' => s'.JumpFree ∧ G l) E) :
    (s.mapGotosM f).Settles (fun s' => s'.JumpFree ∧ ∀ l c, goto l c ∈ s.substmts → G l) E := by
  cases s with
  | block items b c =>
    refine (mapGotosListM_settles items
      (fun s hs x hx => hlabels x (List.mem_cons_of_mem _ (mem_substmtsList.2 ⟨s, hs, hx⟩)))
      fun l c h => hf l c (List.mem_cons_of_mem _ h)).bind fun items' h => .pure ⟨?_, ?_⟩
    · exact jumpFree_of_cons rfl rfl (JumpFree.list h.1)
    · intro l c hgoto
      exact h.2 l c ((List.mem_cons.1 hgoto).resolve_left (by simp))
  | ifThen p t c =>
    refine (mapGotosM_settles t (fun x hx => hlabels x (List.mem_cons_of_mem _ hx))
      fun l c h => hf l c (List.mem_cons_of_mem _ h)).bind fun t' h => .pure ⟨?_, ?_⟩
    · exact jumpFree_of_cons rfl rfl h.1
    · intro l c hgoto
      exact h.2 l c ((List.mem_cons.1 hgoto).resolve_left (by simp))
  | ifElse p t e c =>
    refine (mapGotosM_settles t
      (fun x hx => hlabels x (List.mem_cons_of_mem _ (List.mem_append_left _ hx)))
      fun l c h => hf l c (List.mem_cons_of_mem _ (List.mem_append_left _ h))).bind fun t' ht => ?_
    refine (mapGotosM_settles e
      (fun x hx => hlabels x (List.mem_cons_of_mem _ (List.mem_append_right _ hx)))
      fun l c h => hf l c (List.mem_cons_of_mem _ (List.mem_append_right _ h))).bind
      fun e' he => .pure ⟨?_, ?_⟩
    · refine jumpFree_of_cons rfl rfl fun x hx => ?_
      exact (List.mem_append.1 hx).elim (ht.1 x) (he.1 x)
    · intro l c hgoto
      rcases List.mem_append.1 ((List.mem_cons.1 hgoto).resolve_left (by simp)) with h | h
      · exact ht.2 l c h
      · exact he.2 l c h
  | forLoop _ _ _ body _ | whileLoop _ body _ | doWhile _ body _ =>
    refine (mapGotosM_settles body (fun x hx => hlabels x (List.mem_cons_of_mem _ hx))
      fun l c h => hf l c (List.mem_cons_of_mem _ h)).bind fun body' h => .pure ⟨?_, ?_⟩
    · exact jumpFree_of_cons rfl rfl h.1
    · intro l c hgoto
      exact h.2 l c ((List.mem_cons.1 hgoto).resolve_left (by simp))
  | goto l c =>
    intro n
    refine (hf l c (by simp [substmts]) n).imp_left ?_
    rintro ⟨s', n', hrun, hfree, hG⟩
    refine ⟨s', n', hrun, hfree, fun l' c' hgoto => ?_⟩
    cases List.mem_singleton.1 hgoto
    exact hG
  | label n s c => exact absurd (hlabels (label n s c) (by simp [substmts])) (by simp [isLabelled])
  | decl _ _ | expr _ _ | ret _ _ | brk _ | cont _ | empty _ =>
    exact .pure ⟨jumpFree_of_cons rfl rfl (by simp), by simp [substmts]⟩

theorem mapGotosListM_settles (items : List Stmt) (hlabels : ∀ s ∈ items, s.LabelFree)
    (hf : ∀ l c, goto l c ∈ substmtsList items →
      (f l c).Settles (fun s' => s'.JumpFree ∧ G l) E) :
    (mapGotosListM f items).Settles
      (fun items' => (∀ s ∈ items', s.JumpFree) ∧ ∀ l c, goto l c ∈ substmtsList items → G l)
      E := by
  cases items with
  | nil => exact .pure ⟨by simp, by simp [substmtsList]⟩
  | cons first rest =>
    refine (mapGotosM_settles first (hlabels first (by simp))
      fun l c h => hf l c (List.mem_append_left _ h)).bind fun first' hfirst => ?_
    refine (mapGotosListM_settles rest (fun s hs => hlabels s (List.mem_cons_of_mem _ hs))
      fun l c h => hf l c (List.mem_append_right _ h)).bind fun rest' hrest => .pure ⟨?_, ?_⟩
    · exact List.forall_mem_cons.2 ⟨hfirst.1, hrest.1⟩
    · intro l c hgoto
      exact (List.mem_append.1 hgoto).elim (hfirst.2 l c) (hrest.2 l c)

end

end Stmt

/-! ### The copy for a label -/

/-- What an error says of the body of a function: a jump has no label, or a label leads back to
itself. -/
def Block.Explains (b : Block) (function : String) (e : NormalizeError) : Prop :=
  (∃ l, e = .unknownLabel l function ∧ b.HasJump l ∧ ¬ b.HasLabel l) ∨
    ∃ l, e = .cyclicGoto l function ∧ Relation.TransGen b.LeadsTo l l

/-- What holds of a label that could be replaced while others were active: it is one of the body
and leads neither back to itself nor to an active one. -/
structure Block.Replaceable (b : Block) (active : List String) (l : String) : Prop where
  hasLabel : b.HasLabel l
  acyclic : ¬ Relation.TransGen b.LeadsTo l l
  avoids : ∀ m, Relation.ReflTransGen b.LeadsTo l m → m ∉ active

/-- Different labels of the body are no more than the captured ones. -/
theorem Block.length_le_captures {b : Block} {active : List String} (hnodup : active.Nodup)
    (hactive : active ⊆ b.captures.map Prod.fst) : active.length ≤ b.captures.length := by
  simpa using hnodup.length_le_of_subset hactive

/-- The copy for a label, or what is wrong with the label. The active labels lead to it. -/
theorem expandGoto_settles (b : Block) (function : String) (fuel : Nat) (active : List String)
    (l : String) (c : Coord) (hnodup : active.Nodup) (hkeys : active ⊆ b.captures.map Prod.fst)
    (hactive : ∀ a ∈ active, Relation.TransGen b.LeadsTo a l) (hjump : b.HasJump l)
    (hfuel : b.captures.length < fuel + active.length) :
    (expandGoto b.captures function fuel active l c).Settles
      (fun s => s.JumpFree ∧ b.Replaceable active l) (b.Explains function) := by
  induction fuel generalizing active l c with
  | zero =>
    have := Block.length_le_captures hnodup hkeys
    omega
  | succ fuel ih =>
    rw [expandGoto]
    by_cases hmem : l ∈ active
    · -- An active label is reached again.
      rw [if_pos (by simpa using hmem)]
      exact .throw (.inr ⟨l, rfl, hactive l hmem⟩)
    rw [if_neg (by simpa using hmem)]
    cases hcode : b.captures.lookup l with
    | none => exact .throw (.inl ⟨l, rfl, hjump, Block.not_hasLabel_of_lookup hcode⟩)
    | some code =>
      -- While the code for `l` is copied, `l` is active as well, and leads to all that it jumps to.
      have hcopy := Stmt.mapGotosListM_settles (E := b.Explains function)
        (G := b.Replaceable (l :: active)) code (Block.labelFree_of_lookup hcode)
        fun m c' hgoto => by
          have hlead : b.LeadsTo l m := ⟨code, c', hcode, hgoto⟩
          refine ih (l :: active) m c' (List.nodup_cons.2 ⟨hmem, hnodup⟩)
            (List.cons_subset.2 ⟨Block.mem_keys_of_lookup hcode, hkeys⟩) (fun a ha => ?_)
            hlead.hasJump ?_
          · rcases List.mem_cons.1 ha with rfl | ha
            · exact .single hlead
            · exact (hactive a ha).tail hlead
          · simp only [List.length_cons]
            omega
      refine hcopy.bind fun items hitems n => .inl ⟨.block items none c, n + 1, rfl, ?_, ?_⟩
      · exact Stmt.jumpFree_of_cons rfl rfl (Stmt.JumpFree.list hitems.1)
      · -- What comes after `l` comes after a jump in its code, where `l` was active.
        have hafter (k m : String) (hlead : b.LeadsTo l k)
            (hrest : Relation.ReflTransGen b.LeadsTo k m) : m ∉ l :: active := by
          obtain ⟨code', c', hcode', hgoto⟩ := hlead
          cases hcode.symm.trans hcode'
          exact (hitems.2 k c' hgoto).avoids m hrest
        refine ⟨Block.hasLabel_of_lookup hcode, fun hcycle => ?_, fun m hm => ?_⟩
        · obtain ⟨k, hlead, hrest⟩ := Relation.TransGen.head'_iff.1 hcycle
          exact hafter k l hlead hrest List.mem_cons_self
        · rcases hm.cases_head with rfl | ⟨k, hlead, hrest⟩
          · exact hmem
          · exact fun hma => hafter k m hlead hrest (List.mem_cons_of_mem _ hma)

/-- The bound on the depth is never reached: any two that cover the labels which are not active
give the same copy or the same error. -/
theorem expandGoto_eq_of_lt (b : Block) (function : String) {fuel fuel' : Nat}
    {active : List String} (hnodup : active.Nodup) (hkeys : active ⊆ b.captures.map Prod.fst)
    (hfuel : b.captures.length < fuel + active.length)
    (hfuel' : b.captures.length < fuel' + active.length) :
    expandGoto b.captures function fuel active = expandGoto b.captures function fuel' active := by
  have hlength := Block.length_le_captures hnodup hkeys
  -- An active label is never expanded again, so either bound outlasts the labels that are left.
  induction fuel generalizing fuel' active with
  | zero => omega
  | succ fuel ih =>
    cases fuel' with
    | zero => omega
    | succ fuel' =>
      funext l c
      rw [expandGoto, expandGoto]
      by_cases hmem : l ∈ active
      · rw [if_pos (by simpa using hmem), if_pos (by simpa using hmem)]
      rw [if_neg (by simpa using hmem), if_neg (by simpa using hmem)]
      cases hcode : b.captures.lookup l with
      | none => rfl
      | some code =>
        have hnodup' : (l :: active).Nodup := List.nodup_cons.2 ⟨hmem, hnodup⟩
        have hkeys' : l :: active ⊆ b.captures.map Prod.fst :=
          List.cons_subset.2 ⟨Block.mem_keys_of_lookup hcode, hkeys⟩
        have hnext : expandGoto b.captures function fuel (l :: active) =
            expandGoto b.captures function fuel' (l :: active) := by
          apply ih hnodup' hkeys'
          · simp only [List.length_cons]
            omega
          · simp only [List.length_cons]
            omega
          · exact Block.length_le_captures hnodup' hkeys'
        simp only [hnext]

/-! ### Blocks that end at a return -/

theorem Block.endsAtReturn_cutAfterReturn (b : Block) : b.cutAfterReturn.value.EndsAtReturn := by
  obtain ⟨items, coord⟩ := b
  intro before s after hitems hs
  simp only [cutAfterReturn] at hitems
  induction items generalizing before with
  | nil => simp at hitems
  | cons first rest ih =>
    by_cases hfirst : first.isReturn
    · -- The first item is the return, and it is all that is left.
      simp only [List.takeWhile_cons, hfirst, Bool.not_true, Bool.false_eq_true, if_false,
        List.length_nil, List.take_succ_cons, List.take_zero] at hitems
      cases before with
      | nil => exact (List.cons.inj hitems).2.symm
      | cons x before => simp at hitems
    · simp only [List.takeWhile_cons, hfirst, Bool.not_false, if_true, List.length_cons,
        List.take_succ_cons] at hitems
      cases before with
      | nil =>
        obtain ⟨rfl, -⟩ := List.cons.inj hitems
        exact absurd hs hfirst
      | cons x before => exact ih before (List.cons.inj hitems).2

namespace Stmt

/-- Whether every block inside a statement ends at its return. -/
def BlocksEnd (s : Stmt) : Prop :=
  ∀ items b c, block items b c ∈ s.substmts → (⟨items, b⟩ : Block).EndsAtReturn

theorem BlocksEnd.of_cons {s : Stmt} {inner : List Stmt} (hs : s.substmts = s :: inner)
    (hself : ∀ items b c, s = block items b c → (⟨items, b⟩ : Block).EndsAtReturn)
    (hinner : ∀ items b c, block items b c ∈ inner → (⟨items, b⟩ : Block).EndsAtReturn) :
    s.BlocksEnd := by
  intro items b c h
  rw [hs] at h
  rcases List.mem_cons.1 h with h | h
  · exact hself items b c h.symm
  · exact hinner items b c h

mutual

/-- After every block is cut off, all end at their returns. -/
theorem blocksEnd_cutAfterReturn (s : Stmt) :
    (s.mapBlocksM Block.cutAfterReturn).value.BlocksEnd := by
  cases s with
  | block items b c =>
    refine .of_cons rfl (fun items' b' c' h => ?_) fun items' b' c' h => ?_
    · obtain ⟨rfl, rfl, -⟩ := Stmt.block.inj h
      exact Block.endsAtReturn_cutAfterReturn _
    · obtain ⟨x, hx, h⟩ := mem_substmtsList.1 h
      exact blocksEndList_cutAfterReturn items x (Block.subset_cutAfterReturn _ hx) _ _ _ h
  | ifThen p t c => exact .of_cons rfl nofun (blocksEnd_cutAfterReturn t)
  | ifElse p t e c =>
    refine .of_cons rfl nofun fun items' b' c' h => ?_
    rcases List.mem_append.1 h with h | h
    · exact blocksEnd_cutAfterReturn t _ _ _ h
    · exact blocksEnd_cutAfterReturn e _ _ _ h
  | forLoop _ _ _ body _ | whileLoop _ body _ | doWhile _ body _ =>
    exact .of_cons rfl nofun (blocksEnd_cutAfterReturn body)
  | label n s c => exact .of_cons rfl nofun (blocksEnd_cutAfterReturn s)
  | decl _ _ | expr _ _ | ret _ _ | brk _ | cont _ | goto _ _ | empty _ =>
    exact .of_cons rfl nofun nofun

theorem blocksEndList_cutAfterReturn (items : List Stmt) :
    ∀ s ∈ (mapBlocksListM Block.cutAfterReturn items).value, s.BlocksEnd := by
  cases items with
  | nil => exact fun s hs => by cases hs
  | cons first rest =>
    exact List.forall_mem_cons.2
      ⟨blocksEnd_cutAfterReturn first, blocksEndList_cutAfterReturn rest⟩

end

end Stmt

theorem Block.endsAtReturn_blocks (b : Block) :
    ∀ x ∈ (b.mapBlocksM Block.cutAfterReturn).value.blocks, x.EndsAtReturn := by
  intro x hx
  rcases List.mem_cons.1 hx with rfl | hx
  · exact Block.endsAtReturn_cutAfterReturn _
  · obtain ⟨s, hs, hsx⟩ := List.mem_filterMap.1 hx
    cases s with
    | block items coord c =>
      cases hsx
      obtain ⟨item, hitem, hs⟩ := Stmt.mem_substmtsList.1 hs
      exact Stmt.blocksEndList_cutAfterReturn b.items item
        (Block.subset_cutAfterReturn _ hitem) _ _ _ hs
    | _ => cases hsx

/-! ### The pass -/

/-- Replacing the jumps of a body leaves none and shows that its labels are in order, or fails for
a reason. -/
theorem Block.mapGotos_settles (b : Block) (function : String) :
    (Stmt.mapGotosListM (expandGoto b.captures function (b.captures.length + 1) [])
      (Stmt.dropLabelsList b.items)).Settles
      (fun items => (∀ s ∈ items, s.JumpFree) ∧ b.JumpsDeclared ∧ b.LabelsAcyclic)
      (b.Explains function) := by
  intro n
  have hsettles := Stmt.mapGotosListM_settles (E := b.Explains function)
    (G := b.Replaceable []) (f := expandGoto b.captures function (b.captures.length + 1) []) _
    (Stmt.dropLabelsList_labelFree b.items) fun l c hgoto =>
      expandGoto_settles b function _ [] l c List.nodup_nil (by simp) (by simp)
        ⟨c, Stmt.goto_mem_of_mem_dropLabelsList _ hgoto⟩ (by simp)
  refine (hsettles n).imp_left ?_
  rintro ⟨items, n', hrun, hfree, hreplaceable⟩
  have hjumps (l : String) (h : b.HasJump l) : b.Replaceable [] l := by
    obtain ⟨c, hgoto⟩ := h
    exact hreplaceable l c (Stmt.goto_mem_dropLabelsList _ hgoto)
  refine ⟨items, n', hrun, hfree, fun l h => (hjumps l h).hasLabel, fun l hcycle => ?_⟩
  exact (hjumps l (Block.hasJump_of_transGen hcycle)).acyclic hcycle

/-- An error and labels that are in order exclude each other. -/
theorem Block.Explains.not_inOrder {b : Block} {function : String} {e : NormalizeError}
    (h : b.Explains function e) : ¬ (b.JumpsDeclared ∧ b.LabelsAcyclic) := by
  rintro ⟨hdeclared, hacyclic⟩
  rcases h with ⟨l, -, hjump, hlabel⟩ | ⟨l, -, hcycle⟩
  · exact hlabel (hdeclared l hjump)
  · exact hacyclic l hcycle

/-- What the elimination of jumps leaves of a function. -/
structure FuncDef.WithoutJumps (f g : FuncDef) : Prop where
  /-- Only the body changes. -/
  sameHead : g = { f with body := g.body }
  /-- No jump and no label is left at any depth. -/
  jumpFree : ∀ s ∈ g.body.stmts, s.isJump = false
  /-- If there was a jump or a label, every block ends at its return. -/
  endsAtReturn : f.body.stmts.any Stmt.isJump → ∀ b ∈ g.body.blocks, b.EndsAtReturn

/-- One of two outcomes: the jumps are gone and the labels were in order, or the error says what is
wrong with them. -/
theorem FuncDef.eliminateJumps_cases (f : FuncDef) :
    (∃ g tally, f.eliminateJumps = .ok (g, tally) ∧ f.WithoutJumps g ∧
      f.body.JumpsDeclared ∧ f.body.LabelsAcyclic) ∨
    ∃ e, f.eliminateJumps = .error e ∧ f.body.Explains f.name e := by
  rw [eliminateJumps]
  by_cases hany : f.body.stmts.any Stmt.isJump
  · rw [if_pos hany]
    rcases f.body.mapGotos_settles f.name 0 with
      ⟨items, replaced, hrun, hfree, hordered⟩ | ⟨e, hrun, hexplains⟩
    · let cut := ({ f.body with items } : Block).mapBlocksM Block.cutAfterReturn
      refine .inl ⟨{ f with body := cut.value },
        ⟨replaced, 0, f.body.labelCount + cut.count⟩, ?_, ⟨rfl, ?_, fun _ => ?_⟩, hordered⟩
      · simp only [StateT.run]
        rw [hrun]
        rfl
      · refine Stmt.JumpFree.list fun s hs => ?_
        exact Stmt.jumpFreeList_cutAfterReturn items hfree s (Block.subset_cutAfterReturn _ hs)
      · exact Block.endsAtReturn_blocks _
    · refine .inr ⟨e, ?_, hexplains⟩
      simp only [StateT.run]
      rw [hrun]
      rfl
  · rw [if_neg hany]
    -- Without jumps there is no edge in the graph of labels.
    have hnone (l : String) : ¬ f.body.HasJump l := by
      rintro ⟨c, hgoto⟩
      exact hany (List.any_eq_true.2 ⟨_, hgoto, rfl⟩)
    refine .inl ⟨f, .zero, rfl, ⟨rfl, by simpa using hany, fun h => absurd h hany⟩,
      fun l hjump => absurd hjump (hnone l), fun l hcycle => ?_⟩
    exact hnone l (Block.hasJump_of_transGen hcycle)

/-- Jumps are eliminated exactly if each has its label and no label leads back to itself. Then no
jump and no label is left; otherwise the error names a label that is missing or one on a cycle. The
bound on the depth of replacements plays no part in the result. -/
theorem FuncDef.eliminateJumps_exact (f : FuncDef) :
    (∀ fuel, f.body.captures.length < fuel →
      expandGoto f.body.captures f.name fuel [] =
        expandGoto f.body.captures f.name (f.body.captures.length + 1) []) ∧
    ((∃ result, f.eliminateJumps = .ok result) ↔ f.body.JumpsDeclared ∧ f.body.LabelsAcyclic) ∧
    (∀ g tally, f.eliminateJumps = .ok (g, tally) → f.WithoutJumps g) ∧
    ∀ e, f.eliminateJumps = .error e → f.body.Explains f.name e := by
  refine ⟨fun fuel hfuel => ?_, ?_⟩
  · exact expandGoto_eq_of_lt f.body f.name List.nodup_nil (by simp) (by simpa using hfuel)
      (by simp)
  rcases f.eliminateJumps_cases with ⟨g, tally, hok, hwithout, hordered⟩ | ⟨e, herror, hexplains⟩
  · refine ⟨⟨fun _ => hordered, fun _ => ⟨_, hok⟩⟩, fun g' tally' h => ?_, fun e h => ?_⟩
    · cases hok.symm.trans h
      exact hwithout
    · cases hok.symm.trans h
  · refine ⟨⟨?_, fun h => absurd h hexplains.not_inOrder⟩, fun g tally h => ?_, fun e' h => ?_⟩
    · rintro ⟨result, h⟩
      cases herror.symm.trans h
    · cases herror.symm.trans h
    · cases herror.symm.trans h
      exact hexplains

end MathKernel
