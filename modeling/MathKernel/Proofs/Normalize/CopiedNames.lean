import MathKernel.Proofs.Normalize.Fragments
import MathKernel.Proofs.Normalize.Positions
import MathKernel.Proofs.Syntax.Occurrences
import MathKernel.Proofs.Syntax.Walks

/-!
# Names in copied code

The block that replaces a jump holds the code that follows the label, as it is written there. In
the place of the jump its names mean the same if the declarations in scope are the same: for each
name that the code uses without declaring it, in its own text or in that of a label it jumps to in
turn. Then every use in the new body, copied or not, refers to the declaration that it refers to
in the body.

## Main definitions

* `Block.Copies` — the expressions in the block that replaces a jump
* `Block.Needs` — the names that such a block uses and does not declare
* `FuncDef.JumpsKeepNames` — needed names mean the same at a jump and at its label

## Main results

* `expandGoto_copies` — the block that replaces a jump holds nothing else
* `Block.Copies.references_subset` — copied uses refer to what they refer to after the label
* `FuncDef.references_eliminateJumps` — the pass keeps what names refer to
-/

namespace MathKernel

open Placed

/-! ### What replacing jumps puts in their place -/

/-- Expressions come from those found before, or from what a jump found before is replaced by. -/
def Expands (P : String → Stmt → Prop) (found found' : List Placed) : Prop :=
  ∀ es e, (es, .expr e) ∈ found' → (es, .expr e) ∈ found ∨
    ∃ es₁ es₂ l x, (es₁, .jump l) ∈ found ∧ P l x ∧ (es₂, .expr e) ∈ x.occurrences ∧
      es = es₁ ++ es₂

namespace Expands

variable {P : String → Stmt → Prop} {found found' more more' : List Placed}

theorem refl (found : List Placed) : Expands P found found :=
  fun _ _ h => .inl h

theorem mono (h : Expands P found found') (hsub : found ⊆ more) : Expands P more found' := by
  intro es e he
  rcases h es e he with hhere | ⟨es₁, es₂, l, x, hjump, hrest⟩
  · exact .inl (hsub hhere)
  · exact .inr ⟨es₁, es₂, l, x, hsub hjump, hrest⟩

theorem append (h : Expands P found found') (hmore : Expands P more more') :
    Expands P (found ++ more) (found' ++ more') := by
  intro es e he
  rcases List.mem_append.1 he with he | he
  · exact h.mono (List.subset_append_left _ _) es e he
  · exact hmore.mono (List.subset_append_right _ _) es e he

theorem under (h : Expands P found found') (ds : List Decl) :
    Expands P (under ds found) (under ds found') := by
  intro es e he
  obtain ⟨⟨es', o⟩, hmem, heq⟩ := mem_under.1 he
  obtain ⟨rfl, rfl⟩ := Prod.mk.inj heq
  rcases h es' e hmem with hhere | ⟨es₁, es₂, l, x, hjump, hx, hcopied, rfl⟩
  · exact .inl (mem_under.2 ⟨_, hhere, rfl⟩)
  · refine .inr ⟨ds ++ es₁, es₂, l, x, mem_under.2 ⟨_, hjump, rfl⟩, hx, hcopied, ?_⟩
    exact (List.append_assoc ds es₁ es₂).symm

end Expands

namespace Stmt

section Gotos

variable {f : String → Coord → Expansion Stmt} {P : String → Stmt → Prop}

mutual

/-- Replacing jumps adds what they are replaced by, and leaves declarations where they are. -/
theorem mapGotosM_expands (hP : ∀ l x, P l x → x.declared? = none)
    (hf : ∀ l c, Ensures (f l c) (P l)) (s : Stmt) :
    Ensures (s.mapGotosM f) fun s' =>
      s'.declared? = s.declared? ∧ Expands P s.occurrences s'.occurrences := by
  cases s with
  | block items b c =>
    exact ensures_bind (mapGotosListM_expands hP hf items) fun _ h => ensures_pure ⟨rfl, h⟩
  | ifThen p t c =>
    refine ensures_bind (mapGotosM_expands hP hf t) fun _ h => ensures_pure ⟨rfl, ?_⟩
    exact (Expands.refl _).append h.2
  | ifElse p t e c =>
    refine ensures_bind (mapGotosM_expands hP hf t) fun _ ht => ?_
    refine ensures_bind (mapGotosM_expands hP hf e) fun _ he => ensures_pure ⟨rfl, ?_⟩
    exact ((Expands.refl _).append ht.2).append he.2
  | forLoop init cond next body c =>
    refine ensures_bind (mapGotosM_expands hP hf body) fun _ h => ensures_pure ⟨rfl, ?_⟩
    rcases init with _ | ds | e
    · exact (Expands.refl _).append h.2
    · exact (Expands.refl _).append (((Expands.refl _).append h.2).under ds)
    · exact (Expands.refl _).append h.2
  | whileLoop p body c | doWhile p body c =>
    refine ensures_bind (mapGotosM_expands hP hf body) fun _ h => ensures_pure ⟨rfl, ?_⟩
    exact (Expands.refl _).append h.2
  | label n s c =>
    exact ensures_bind (mapGotosM_expands hP hf s) fun _ h => ensures_pure h
  | goto l c =>
    intro n result hresult
    have hx := hf l c n result hresult
    refine ⟨hP l _ hx, fun es e he => .inr ?_⟩
    exact ⟨[], es, l, _, List.mem_singleton.2 rfl, hx, he, rfl⟩
  | decl _ _ | expr _ _ | ret _ _ | brk _ | cont _ | empty _ =>
    exact ensures_pure ⟨rfl, Expands.refl _⟩

theorem mapGotosListM_expands (hP : ∀ l x, P l x → x.declared? = none)
    (hf : ∀ l c, Ensures (f l c) (P l)) (items : List Stmt) :
    Ensures (mapGotosListM f items) fun items' =>
      Expands P (occurrencesList items) (occurrencesList items') := by
  cases items with
  | nil => exact ensures_pure (Expands.refl _)
  | cons s rest =>
    refine ensures_bind (mapGotosM_expands hP hf s) fun s' hs => ?_
    refine ensures_bind (mapGotosListM_expands hP hf rest) fun rest' hrest => ensures_pure ?_
    rw [occurrencesList, occurrencesList, hs.1]
    exact hs.2.append (hrest.under _)

end

end Gotos

/-! ### Cutting blocks off after a return -/

theorem occurrencesList_take (n : Nat) (items : List Stmt) :
    occurrencesList (items.take n) ⊆ occurrencesList items := by
  induction items generalizing n with
  | nil => simp
  | cons s rest ih =>
    cases n with
    | zero => simp [occurrencesList]
    | succ n =>
      refine List.append_subset.2 ⟨List.subset_append_left _ _, ?_⟩
      exact List.Subset.trans (under_subset (ih n)) (List.subset_append_right _ _)

mutual

theorem occurrences_cutAfterReturn (s : Stmt) :
    (s.mapBlocksM Block.cutAfterReturn).value.declared? = s.declared? ∧
      (s.mapBlocksM Block.cutAfterReturn).value.occurrences ⊆ s.occurrences := by
  cases s with
  | block items b c =>
    refine ⟨rfl, List.Subset.trans ?_ (occurrencesList_cutAfterReturn items)⟩
    exact occurrencesList_take _ _
  | ifThen p t c =>
    refine ⟨rfl, List.append_subset.2 ⟨List.subset_append_left _ _, ?_⟩⟩
    exact List.Subset.trans (occurrences_cutAfterReturn t).2 (List.subset_append_right _ _)
  | ifElse p t e c =>
    refine ⟨rfl, List.append_subset.2 ⟨List.append_subset.2 ⟨?_, ?_⟩, ?_⟩⟩
    · exact fun x hx => List.mem_append_left _ (List.mem_append_left _ hx)
    · intro x hx
      have hx := (occurrences_cutAfterReturn t).2 hx
      exact List.mem_append_left _ (List.mem_append_right _ hx)
    · exact List.Subset.trans (occurrences_cutAfterReturn e).2 (List.subset_append_right _ _)
  | forLoop init cond next body c =>
    have hbody := (occurrences_cutAfterReturn body).2
    refine ⟨rfl, ?_⟩
    rcases init with _ | ds | e
    · refine List.append_subset.2 ⟨List.subset_append_left _ _, ?_⟩
      exact List.Subset.trans hbody (List.subset_append_right _ _)
    · refine List.append_subset.2 ⟨List.subset_append_left _ _, ?_⟩
      refine List.Subset.trans (under_subset ?_) (List.subset_append_right _ _)
      refine List.append_subset.2 ⟨List.subset_append_left _ _, ?_⟩
      exact List.Subset.trans hbody (List.subset_append_right _ _)
    · refine List.append_subset.2 ⟨List.subset_append_left _ _, ?_⟩
      exact List.Subset.trans hbody (List.subset_append_right _ _)
  | whileLoop p body c | doWhile p body c =>
    refine ⟨rfl, List.append_subset.2 ⟨List.subset_append_left _ _, ?_⟩⟩
    exact List.Subset.trans (occurrences_cutAfterReturn body).2 (List.subset_append_right _ _)
  | label n s c => exact occurrences_cutAfterReturn s
  | decl _ _ | expr _ _ | ret _ _ | brk _ | cont _ | goto _ _ | empty _ =>
    exact ⟨rfl, List.Subset.refl _⟩

theorem occurrencesList_cutAfterReturn (items : List Stmt) :
    occurrencesList (mapBlocksListM Block.cutAfterReturn items).value ⊆ occurrencesList items := by
  cases items with
  | nil => exact List.Subset.refl _
  | cons s rest =>
    obtain ⟨hdeclared, hs⟩ := occurrences_cutAfterReturn s
    change (s.mapBlocksM Block.cutAfterReturn).value.occurrences ++ under
      (s.mapBlocksM Block.cutAfterReturn).value.declared?.toList _ ⊆ _
    rw [hdeclared]
    refine List.append_subset.2 ⟨List.Subset.trans hs (List.subset_append_left _ _), ?_⟩
    refine List.Subset.trans (under_subset ?_) (List.subset_append_right _ _)
    exact occurrencesList_cutAfterReturn rest

end

end Stmt

/-! ### The block that replaces a jump -/

namespace Block

/-- The expressions in the block that replaces a jump to a label, each with the declarations of
the block that are in scope there: those of the label's code, and those of the code of further
labels in the places of the jumps to them. -/
inductive Copies (b : Block) : String → List Decl → Expr → Prop
  | here {l : String} {ds es : List Decl} {code : List Stmt} {e : Expr}
      (h : b.labelledCode.lookup l = some (ds, code))
      (he : (es, .expr e) ∈ Stmt.occurrencesList code) : Copies b l es e
  | jump {l m : String} {ds es es' : List Decl} {code : List Stmt} {e : Expr}
      (h : b.labelledCode.lookup l = some (ds, code))
      (hm : (es, .jump m) ∈ Stmt.occurrencesList code) (he : Copies b m es' e) :
      Copies b l (es ++ es') e

/-- The names that the block for a label uses and does not declare itself. -/
def Needs (b : Block) (l x : String) : Prop :=
  ∃ es e, b.Copies l es e ∧ x ∈ e.names ∧ x ∉ es.filterMap Decl.name

theorem lookup_captures_eq (b : Block) (l : String) :
    b.captures.lookup l =
      (b.labelledCode.lookup l).map fun entry => Stmt.dropLabelsList entry.2 := by
  rw [captures_eq, lookup_map_snd]

end Block

/-- The block that replaces a jump holds copies of the code of its label, and of further labels. -/
theorem expandGoto_copies (b : Block) (function : String) (fuel : Nat) (active : List String)
    (l : String) (c : Coord) :
    Ensures (expandGoto b.captures function fuel active l c) fun x =>
      x.declared? = none ∧ ∀ es e, (es, .expr e) ∈ x.occurrences → b.Copies l es e := by
  induction fuel generalizing active l c with
  | zero =>
    intro n result hresult
    cases hresult
  | succ fuel ih =>
    unfold expandGoto
    split
    · intro n result hresult
      cases hresult
    · split
      · intro n result hresult
        cases hresult
      · next items hlookup =>
        rw [Block.lookup_captures_eq, Option.map_eq_some_iff] at hlookup
        obtain ⟨⟨ds, code⟩, hentry, rfl⟩ := hlookup
        have hexpands := Stmt.mapGotosListM_expands (fun _ _ hx => hx.1) (ih (l :: active))
          (Stmt.dropLabelsList code)
        rw [Stmt.occurrencesList_dropLabels] at hexpands
        refine ensures_bind hexpands fun items' hitems => ?_
        refine ensures_bind (P := fun _ => True) (fun n result hresult => trivial) fun _ _ => ?_
        refine ensures_pure ⟨rfl, fun es e he => ?_⟩
        rcases hitems es e he with hhere | ⟨es₁, es₂, m, x, hjump, ⟨-, hx⟩, hmem, rfl⟩
        · exact .here hentry hhere
        · exact .jump hentry hjump (hx es₂ e hmem)

/-! ### What copied names refer to -/

namespace Block

variable {b : Block} {σ τ : Scope} {l : String} {es : List Decl} {e : Expr}

/-- In the body, whose own scope is `σ`, needed names mean the same at every jump and at its
label. -/
def JumpsKeepNames (σ : Scope) (b : Block) : Prop :=
  ∀ es l ds code x, (es, .jump l) ∈ Stmt.occurrencesList b.items →
    b.labelledCode.lookup l = some (ds, code) → b.Needs l x →
      σ.declareAll es x = σ.declareAll ds x

/-- A use copied to a place where all that the block needs is as it is at the label refers to what
it refers to in the body. The induction follows the chain of jumps from label to label: a jump in
copied code is one of the body, and what is declared on the way to it is copied too. -/
theorem Copies.references_subset (hkeep : b.JumpsKeepNames σ) (hcopy : b.Copies l es e)
    (hτ : ∀ ds code x, b.labelledCode.lookup l = some (ds, code) → b.Needs l x →
      τ x = σ.declareAll ds x) :
    e.references (τ.declareAll es) ⊆ Stmt.referencesList σ b.items := by
  rw [Stmt.referencesList_eq]
  induction hcopy generalizing τ with
  | @here l ds es code e h he =>
    have hsame : e.references (τ.declareAll es) = e.references (σ.declareAll (ds ++ es)) := by
      rw [Scope.declareAll_append]
      refine Expr.references_congr fun x hx => Scope.declareAll_congr fun hes => ?_
      exact hτ ds code x h ⟨es, e, .here h he, hx, hes⟩
    rw [hsame]
    intro r hr
    have hplace := under_occurrences_subset (mem_of_lookup_eq_some h)
      (mem_under.2 ⟨(es, .expr e), he, rfl⟩)
    exact List.mem_flatMap.2 ⟨_, hplace, hr⟩
  | @jump l m ds es es' code e h hm he ih =>
    rw [Scope.declareAll_append]
    refine ih fun ds' code' x hentry hneeds => ?_
    -- At the jump of the body the needed names are as they are at the second label.
    have hplace := under_occurrences_subset (mem_of_lookup_eq_some h)
      (mem_under.2 ⟨(es, .jump m), hm, rfl⟩)
    rw [← hkeep _ m ds' code' x hplace hentry hneeds, Scope.declareAll_append]
    refine Scope.declareAll_congr fun hes => hτ ds code x h ?_
    obtain ⟨es'', e'', hcopy, hx, hes''⟩ := hneeds
    refine ⟨es ++ es'', e'', .jump h hm hcopy, hx, ?_⟩
    rw [List.filterMap_append, List.mem_append]
    exact not_or.2 ⟨hes, hes''⟩

end Block

/-! ### The pass -/

namespace FuncDef

variable {f g : FuncDef} {tally : Tally} {σ : Scope}

/-- The scope of a function's body, where its name and its parameters are declared. -/
def bodyScope (σ : Scope) (f : FuncDef) : Scope :=
  (σ.declare f.decl).declareAll f.params

/-- What the elimination of jumps leaves of a function: every expression of the new body is one of
the body in its place, or copied to the place of a jump. -/
theorem exists_of_mem_eliminateJumps (h : f.eliminateJumps = .ok (g, tally)) :
    g = { f with body := g.body } ∧
      Expands (fun l x => x.declared? = none ∧
          ∀ es e, (es, .expr e) ∈ x.occurrences → f.body.Copies l es e)
        (Stmt.occurrencesList f.body.items) (Stmt.occurrencesList g.body.items) := by
  rw [eliminateJumps] at h
  by_cases hany : f.body.stmts.any Stmt.isJump
  · rw [if_pos hany] at h
    have hexpands := Stmt.mapGotosListM_expands (fun _ _ hx => hx.1)
      (expandGoto_copies f.body f.name (f.body.captures.length + 1) [])
      (Stmt.dropLabelsList f.body.items)
    rw [Stmt.occurrencesList_dropLabels] at hexpands
    dsimp only at h
    cases hrun : (Stmt.mapGotosListM
        (expandGoto f.body.captures f.name (f.body.captures.length + 1) [])
        (Stmt.dropLabelsList f.body.items)).run 0 with
    | error e =>
      rw [hrun] at h
      cases h
    | ok result =>
      obtain ⟨items, replaced⟩ := result
      rw [hrun] at h
      cases h
      refine ⟨rfl, fun es e he => hexpands 0 (items, replaced) hrun es e ?_⟩
      exact Stmt.occurrencesList_cutAfterReturn items (Stmt.occurrencesList_take _ _ he)
  · rw [if_neg hany] at h
    cases h
    exact ⟨rfl, Expands.refl _⟩

/-- The elimination of jumps keeps what names refer to, if names that a label's code needs mean the
same at the jumps to it. Every use in the new function, in a copy or not, refers to a declaration
that the use refers to in the function. -/
theorem references_eliminateJumps (h : f.eliminateJumps = .ok (g, tally))
    (hkeep : f.body.JumpsKeepNames (f.bodyScope σ)) : g.references σ ⊆ f.references σ := by
  obtain ⟨hg, hexpands⟩ := exists_of_mem_eliminateJumps h
  have hdecl : g.decl = f.decl := by rw [hg]
  have hbody : Stmt.referencesList (f.bodyScope σ) g.body.items ⊆
      Stmt.referencesList (f.bodyScope σ) f.body.items := by
    intro r hr
    rw [Stmt.referencesList_eq] at hr
    obtain ⟨⟨es, o⟩, hp, hr⟩ := List.mem_flatMap.1 hr
    cases o with
    | jump l => cases hr
    | expr e =>
      rcases hexpands es e hp with hhere | ⟨es₁, es₂, l, x, hjump, ⟨-, hx⟩, hmem, rfl⟩
      · rw [Stmt.referencesList_eq]
        exact List.mem_flatMap.2 ⟨_, hhere, hr⟩
      · have hr : r ∈ e.references (((f.bodyScope σ).declareAll es₁).declareAll es₂) := by
          rw [← Scope.declareAll_append]
          exact hr
        exact (hx es₂ e hmem).references_subset hkeep
          (fun ds code x hentry hneeds => hkeep es₁ l ds code x hjump hentry hneeds) hr
  rw [references, references, params, params, hdecl]
  exact List.append_subset.2 ⟨List.subset_append_left _ _,
    List.Subset.trans hbody (List.subset_append_right _ _)⟩

end FuncDef

/-- The declaration `int name = value` at a position. -/
def Decl.intAt (place name : String) (value : Expr) : Decl :=
  { Decl.ofScalar name .int (some value) with coord := some place }

namespace FuncDef

open Decl (intAt)

/-- A body in which a jump leaves the scope of one local, passes over the declaration of another,
and reaches code with a local of its own: `int y = 2; if (x) { int z = 1; goto out; } int w = x;
out: { int z = y; return z; }`. -/
def jumpsOverLocals : FuncDef where
  decl := .prototype "f" .int [.ofScalar "x" .int none]
  body.items := [
    .decl (intAt "1:5" "y" (.int 2 none)) none,
    .ifThen (.id "x" (some "2:5"))
      (.block [.decl (intAt "2:11" "z" (.int 1 none)) none, .goto "out" none] none none) none,
    .decl (intAt "3:5" "w" (.id "x" (some "3:9"))) none,
    .label "out" (.block [
      .decl (intAt "4:12" "z" (.id "y" (some "4:16"))) none,
      .ret (some (.id "z" (some "4:26"))) none] none none) none]
  body.coord := none
  coord := none

theorem lookup_jumpsOverLocals {l : String} {ds : List Decl} {code : List Stmt}
    (h : jumpsOverLocals.body.labelledCode.lookup l = some (ds, code)) :
    l = "out" ∧ code = jumpsOverLocals.body.items.drop 3 := by
  by_cases hl : l = "out"
  · subst hl
    cases h
    exact ⟨rfl, rfl⟩
  · have hne : (l == "out") = false := by simpa using hl
    simp [Block.labelledCode, jumpsOverLocals, Stmt.itemLabelledCode, Stmt.labelledCodeList,
      Stmt.labelledCode, Stmt.labels, Stmt.deeper, List.lookup_cons, hne] at h

/-- The code of the label needs one name. -/
theorem needs_jumpsOverLocals {l x : String} (h : jumpsOverLocals.body.Needs l x) : x = "y" := by
  have hfound : Stmt.occurrencesList (jumpsOverLocals.body.items.drop 3) =
      [([intAt "4:12" "z" (.id "y" (some "4:16"))], .expr (.id "y" (some "4:16"))),
        ([intAt "4:12" "z" (.id "y" (some "4:16"))], .expr (.id "z" (some "4:26")))] := rfl
  obtain ⟨es, e, hcopy, hx, hes⟩ := h
  cases hcopy with
  | here h he =>
    rw [(lookup_jumpsOverLocals h).2, hfound] at he
    rcases List.mem_cons.1 he with heq | he
    · cases heq
      simpa [Expr.names, Expr.uses, Expr.subexprs, Expr.use?] using hx
    · cases List.mem_singleton.1 he
      simp_all [Expr.names, Expr.uses, Expr.subexprs, Expr.use?, intAt, Decl.ofScalar]
  | jump h hm _ =>
    rw [(lookup_jumpsOverLocals h).2, hfound] at hm
    simp at hm

theorem references_eliminateJumps_jumpsOverLocals :
    jumpsOverLocals.body.JumpsKeepNames (jumpsOverLocals.bodyScope .empty) ∧
      ∃ g tally, jumpsOverLocals.eliminateJumps = .ok (g, tally) ∧
        g.references .empty ⊆ jumpsOverLocals.references .empty := by
  have hkeep : jumpsOverLocals.body.JumpsKeepNames (jumpsOverLocals.bodyScope .empty) := by
    intro es l ds code x hjump hentry hneeds
    obtain rfl := needs_jumpsOverLocals hneeds
    obtain ⟨rfl, -⟩ := lookup_jumpsOverLocals hentry
    have hplace : es = [intAt "1:5" "y" (.int 2 none), intAt "2:11" "z" (.int 1 none)] := by
      simpa [jumpsOverLocals, Stmt.occurrencesList, Stmt.occurrences, Decl.occurrences, plain,
        under, Decl.size?, Decl.ofScalar, intAt, Stmt.declared?] using hjump
    subst hplace
    cases hentry
    rfl
  exact ⟨hkeep, _, _, rfl, references_eliminateJumps rfl hkeep⟩

/-- A jump out of the scope of a local that hides the one whose value the label's code returns:
`int y = 2; if (x) { int y = 1; goto out; } out: return y;`. -/
def jumpsOutOfScope : FuncDef where
  decl := .prototype "f" .int [.ofScalar "x" .int none]
  body.items := [
    .decl (intAt "outer" "y" (.int 2 none)) none,
    .ifThen (.id "x" none)
      (.block [.decl (intAt "inner" "y" (.int 1 none)) none, .goto "out" none] none none) none,
    .label "out" (.ret (some (.id "y" (some "use"))) none) none]
  body.coord := none
  coord := none

/-- The use in the copied return refers to the inner variable, to which it does not refer in the
body. -/
theorem references_jumpsOutOfScope :
    (some "use", some (some "inner")) ∉ jumpsOutOfScope.references .empty ∧
      ∃ g tally, jumpsOutOfScope.eliminateJumps = .ok (g, tally) ∧
        (some "use", some (some "inner")) ∈ g.references .empty :=
  ⟨by decide, _, _, rfl, by decide⟩

end FuncDef

end MathKernel
