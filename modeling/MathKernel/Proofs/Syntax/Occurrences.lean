import MathKernel.Normalize.Jumps
import MathKernel.Proofs.Syntax.References

/-!
# Expressions and jumps with the declarations around them

Where an outermost expression or a jump stands inside a statement, some of the statement's own
declarations are in scope. The list of all of them, each with these declarations, is what a scope
outside has to be extended by to know what names mean there, whatever that scope is.

## Main definitions

* `Occurrence`, `Placed` — an outermost expression or a jump, and its place
* `Stmt.occurrences` — what stands in a statement
* `Block.labelledCode` — the code captured for each label, with the place of its first statement

## Main results

* `Stmt.references_eq` — references are those of the occurrences, each in its own scope
* `Block.captures_eq` — captured code with its place forgotten
* `Block.under_occurrences_subset` — what stands in captured code stands in the body
-/

namespace MathKernel

/-- An outermost expression or a jump. -/
inductive Occurrence where
  | expr (e : Expr)
  | jump (label : String)

/-- An occurrence inside some code, with the declarations of the code that are in scope there,
outer ones first. -/
abbrev Placed := List Decl × Occurrence

namespace Placed

/-- Occurrences in code that stands behind further declarations. -/
def under (ds : List Decl) (found : List Placed) : List Placed :=
  found.map fun p => (ds ++ p.1, p.2)

/-- Expressions that see no declaration of the code. -/
def plain (es : List Expr) : List Placed :=
  es.map fun e => ([], .expr e)

/-- The references of an occurrence in code that stands in the given scope. -/
def references (σ : Scope) : Placed → List Reference
  | (ds, .expr e) => e.references (σ.declareAll ds)
  | (_, .jump _) => []

variable {σ : Scope} {ds es : List Decl} {found : List Placed}

@[simp] theorem under_nil : under [] found = found := by
  simp [under]

theorem under_under : under ds (under es found) = under (ds ++ es) found := by
  simp [under, Function.comp_def]

theorem under_subset {more : List Placed} (h : found ⊆ more) : under ds found ⊆ under ds more :=
  List.map_subset _ h

theorem mem_under {p : Placed} : p ∈ under ds found ↔ ∃ q ∈ found, p = (ds ++ q.1, q.2) := by
  simp [under, eq_comm]

@[simp] theorem flatMap_references_under :
    (under ds found).flatMap (references σ) = found.flatMap (references (σ.declareAll ds)) := by
  rw [under, List.flatMap_map]
  refine List.flatMap_congr fun p _ => ?_
  obtain ⟨es, e | l⟩ := p
  · simp [references, Scope.declareAll_append]
  · rfl

@[simp] theorem flatMap_references_plain {exprs : List Expr} :
    (plain exprs).flatMap (references σ) = Expr.referencesList σ exprs := by
  rw [plain, List.flatMap_map]
  rfl

end Placed

open Placed

namespace Decl

/-- What stands in a declaration: the size of an array, and the initializer, which sees the
declared name. -/
def occurrences (d : Decl) : List Placed :=
  plain d.size?.toList ++ under [d] (plain d.init.toList)

/-- What stands in declarations one after the other. -/
def occurrencesList : List Decl → List Placed
  | [] => []
  | d :: rest => d.occurrences ++ under [d] (occurrencesList rest)

theorem references_eq (σ : Scope) (d : Decl) :
    d.references σ = d.occurrences.flatMap (Placed.references σ) := by
  rw [occurrences, List.flatMap_append, flatMap_references_plain, flatMap_references_under,
    flatMap_references_plain]
  rfl

theorem referencesList_eq (σ : Scope) (ds : List Decl) :
    referencesList σ ds = (occurrencesList ds).flatMap (Placed.references σ) := by
  induction ds generalizing σ with
  | nil => rfl
  | cons d rest ih =>
    rw [referencesList, references_eq, ih, occurrencesList, List.flatMap_append,
      flatMap_references_under]
    rfl

end Decl

namespace Stmt

mutual

/-- What stands in a statement. -/
def occurrences : Stmt → List Placed
  | decl d _ => d.occurrences
  | block items _ _ => occurrencesList items
  | expr e _ => plain [e]
  | ifThen p t _ => plain [p] ++ t.occurrences
  | ifElse p t e _ => plain [p] ++ t.occurrences ++ e.occurrences
  | forLoop init cond next body _ =>
    match init with
    | some (.decls ds) =>
      Decl.occurrencesList ds ++ under ds (plain (cond.toList ++ next.toList) ++ body.occurrences)
    | some (.expr e) => plain [e] ++ plain (cond.toList ++ next.toList) ++ body.occurrences
    | none => plain (cond.toList ++ next.toList) ++ body.occurrences
  | whileLoop p body _ => plain [p] ++ body.occurrences
  | doWhile p body _ => plain [p] ++ body.occurrences
  | ret value _ => plain value.toList
  | label _ s _ => s.occurrences
  | goto l _ => [([], .jump l)]
  | brk _ | cont _ | empty _ => []

/-- What stands in the items of a block. -/
def occurrencesList : List Stmt → List Placed
  | [] => []
  | s :: rest => s.occurrences ++ under s.declared?.toList (occurrencesList rest)

end

mutual

/-- The references of a statement are those of what stands in it. -/
theorem references_eq (σ : Scope) (s : Stmt) :
    s.references σ = s.occurrences.flatMap (Placed.references σ) := by
  cases s with
  | decl d c => exact d.references_eq σ
  | block items b c => exact referencesList_eq σ items
  | expr e c => simp [references, occurrences, Expr.referencesList]
  | ifThen p t c =>
    simp [references, occurrences, references_eq σ t, Expr.referencesList]
  | ifElse p t e c =>
    simp [references, occurrences, references_eq σ t, references_eq σ e, Expr.referencesList]
  | forLoop init cond next body c =>
    rcases init with _ | ds | e
    · simp [references, occurrences, references_eq σ body]
    · simp [references, occurrences, references_eq _ body, Decl.referencesList_eq]
    · simp [references, occurrences, references_eq σ body, Expr.referencesList]
  | whileLoop p body c =>
    simp [references, occurrences, references_eq σ body, Expr.referencesList]
  | doWhile p body c =>
    simp [references, occurrences, references_eq σ body, Expr.referencesList]
  | ret value c => simp [references, occurrences]
  | label n s c => exact references_eq σ s
  | brk _ | cont _ | goto _ _ | empty _ => rfl

theorem referencesList_eq (σ : Scope) (items : List Stmt) :
    referencesList σ items = (occurrencesList items).flatMap (Placed.references σ) := by
  cases items with
  | nil => rfl
  | cons s rest =>
    simp [referencesList, occurrencesList, references_eq σ s, referencesList_eq _ rest]

end

/-! ### Labels -/

theorem declared?_dropLabels (s : Stmt) : s.dropLabels.declared? = s.declared? := by
  cases s with
  | label n s c => exact declared?_dropLabels s
  | _ => rfl

mutual

theorem occurrences_dropLabels (s : Stmt) : s.dropLabels.occurrences = s.occurrences := by
  cases s with
  | block items b c => exact occurrencesList_dropLabels items
  | ifThen p t c => simp [dropLabels, occurrences, occurrences_dropLabels t]
  | ifElse p t e c =>
    simp [dropLabels, occurrences, occurrences_dropLabels t, occurrences_dropLabels e]
  | forLoop init cond next body c =>
    simp [dropLabels, occurrences, occurrences_dropLabels body]
  | whileLoop p body c => simp [dropLabels, occurrences, occurrences_dropLabels body]
  | doWhile p body c => simp [dropLabels, occurrences, occurrences_dropLabels body]
  | label n s c => exact occurrences_dropLabels s
  | decl _ _ | expr _ _ | ret _ _ | brk _ | cont _ | goto _ _ | empty _ => rfl

theorem occurrencesList_dropLabels (items : List Stmt) :
    occurrencesList (dropLabelsList items) = occurrencesList items := by
  cases items with
  | nil => rfl
  | cons s rest =>
    simp [dropLabelsList, occurrencesList, occurrences_dropLabels s, declared?_dropLabels,
      occurrencesList_dropLabels rest]

end

/-! ### Captured code and its place -/

/-- Code captured inside further code, with the declarations that are in scope before it. -/
def deeper (ds : List Decl) (entries : List (String × List Decl × List Stmt)) :
    List (String × List Decl × List Stmt) :=
  entries.map fun entry => (entry.1, ds ++ entry.2.1, entry.2.2)

/-- What the labels of a block's items stand for, as in `itemCaptures`, with its place. -/
def itemLabelledCode : List Stmt → List (String × List Decl × List Stmt)
  | [] => []
  | s :: rest =>
    s.labels.map (·, [], takeThroughReturn (s :: rest)) ++
      deeper s.declared?.toList (itemLabelledCode rest)

mutual

/-- What the labels in a statement stand for, as in `captures`, with its place. -/
def labelledCode : Stmt → List (String × List Decl × List Stmt)
  | block items _ _ => itemLabelledCode items ++ labelledCodeList items
  | ifThen _ t _ => t.labelledCode
  | ifElse _ t e _ => t.labelledCode ++ e.labelledCode
  | forLoop init _ _ body _ =>
    match init with
    | some (.decls ds) => deeper ds body.labelledCode
    | some (.expr _) | none => body.labelledCode
  | whileLoop _ body _ => body.labelledCode
  | doWhile _ body _ => body.labelledCode
  | label n s _ => (n, [], [s]) :: s.labelledCode
  | decl .. | expr .. | ret .. | brk _ | cont _ | goto .. | empty _ => []

/-- What the labels in statements stand for, with its place. -/
def labelledCodeList : List Stmt → List (String × List Decl × List Stmt)
  | [] => []
  | s :: rest => s.labelledCode ++ deeper s.declared?.toList (labelledCodeList rest)

end

/-- An entry without its place. -/
def forgetPlace (entry : String × List Decl × List Stmt) : String × List Stmt :=
  (entry.1, entry.2.2)

@[simp] theorem map_forgetPlace_deeper (ds : List Decl)
    (entries : List (String × List Decl × List Stmt)) :
    (deeper ds entries).map forgetPlace = entries.map forgetPlace := by
  simp [deeper, forgetPlace, Function.comp_def]

theorem itemCaptures_eq (items : List Stmt) :
    itemCaptures items = (itemLabelledCode items).map forgetPlace := by
  induction items with
  | nil => rfl
  | cons s rest ih =>
    simp [itemCaptures, itemLabelledCode, ih, forgetPlace, Function.comp_def]

mutual

theorem captures_eq (s : Stmt) : s.captures = s.labelledCode.map forgetPlace := by
  cases s with
  | block items b c =>
    simp [captures, labelledCode, itemCaptures_eq, capturesList_eq items]
  | ifThen p t c => exact captures_eq t
  | ifElse p t e c => simp [captures, labelledCode, captures_eq t, captures_eq e]
  | forLoop init cond next body c =>
    rcases init with _ | ds | e <;> simp [captures, labelledCode, captures_eq body]
  | whileLoop p body c => exact captures_eq body
  | doWhile p body c => exact captures_eq body
  | label n s c => simp [captures, labelledCode, captures_eq s, forgetPlace]
  | decl _ _ | expr _ _ | ret _ _ | brk _ | cont _ | goto _ _ | empty _ => rfl

theorem capturesList_eq (items : List Stmt) :
    capturesList items = (labelledCodeList items).map forgetPlace := by
  cases items with
  | nil => rfl
  | cons s rest => simp [capturesList, labelledCodeList, captures_eq s, capturesList_eq rest]

end

theorem occurrencesList_takeThroughReturn (items : List Stmt) :
    occurrencesList (takeThroughReturn items) ⊆ occurrencesList items := by
  induction items with
  | nil => exact List.Subset.refl _
  | cons s rest ih =>
    rw [takeThroughReturn]
    split
    · rw [occurrencesList, occurrencesList, occurrencesList, under, List.map_nil, List.append_nil]
      exact List.subset_append_left _ _
    · refine List.append_subset.2 ⟨List.subset_append_left _ _, ?_⟩
      exact List.Subset.trans (under_subset ih) (List.subset_append_right _ _)

/-- What stands in captured code stands behind its place. -/
def IsPlacedIn (found : List Placed) (entry : String × List Decl × List Stmt) : Prop :=
  under entry.2.1 (occurrencesList entry.2.2) ⊆ found

theorem IsPlacedIn.mono {found more : List Placed} {entry : String × List Decl × List Stmt}
    (h : IsPlacedIn found entry) (hsub : found ⊆ more) : IsPlacedIn more entry :=
  List.Subset.trans h hsub

theorem isPlacedIn_deeper {found : List Placed} {ds : List Decl}
    {entries : List (String × List Decl × List Stmt)}
    (h : ∀ entry ∈ entries, IsPlacedIn found entry) :
    ∀ entry ∈ deeper ds entries, IsPlacedIn (under ds found) entry := by
  intro entry hentry
  obtain ⟨inner, hinner, rfl⟩ := List.mem_map.1 hentry
  rw [IsPlacedIn, ← under_under]
  exact under_subset (h inner hinner)

theorem isPlacedIn_itemLabelledCode (items : List Stmt) :
    ∀ entry ∈ itemLabelledCode items, IsPlacedIn (occurrencesList items) entry := by
  induction items with
  | nil => simp [itemLabelledCode]
  | cons s rest ih =>
    refine List.forall_mem_append.2 ⟨fun entry hentry => ?_, fun entry hentry => ?_⟩
    · obtain ⟨l, -, rfl⟩ := List.mem_map.1 hentry
      rw [IsPlacedIn, under_nil]
      exact occurrencesList_takeThroughReturn (s :: rest)
    · exact (isPlacedIn_deeper ih entry hentry).mono (List.subset_append_right _ _)

mutual

theorem isPlacedIn_labelledCode (s : Stmt) :
    ∀ entry ∈ s.labelledCode, IsPlacedIn s.occurrences entry := by
  cases s with
  | block items b c =>
    exact List.forall_mem_append.2
      ⟨isPlacedIn_itemLabelledCode items, isPlacedIn_labelledCodeList items⟩
  | ifThen p t c =>
    exact fun entry hentry =>
      (isPlacedIn_labelledCode t entry hentry).mono (List.subset_append_right _ _)
  | ifElse p t e c =>
    refine List.forall_mem_append.2 ⟨fun entry hentry => ?_, fun entry hentry => ?_⟩
    · refine (isPlacedIn_labelledCode t entry hentry).mono fun x hx => ?_
      exact List.mem_append_left _ (List.mem_append_right _ hx)
    · exact (isPlacedIn_labelledCode e entry hentry).mono (List.subset_append_right _ _)
  | forLoop init cond next body c =>
    intro entry hentry
    rcases init with _ | ds | e
    · exact (isPlacedIn_labelledCode body entry hentry).mono (List.subset_append_right _ _)
    · refine (isPlacedIn_deeper (isPlacedIn_labelledCode body) entry hentry).mono fun x hx => ?_
      exact List.mem_append_right _ (under_subset (List.subset_append_right _ _) hx)
    · exact (isPlacedIn_labelledCode body entry hentry).mono (List.subset_append_right _ _)
  | whileLoop p body c | doWhile p body c =>
    exact fun entry hentry =>
      (isPlacedIn_labelledCode body entry hentry).mono (List.subset_append_right _ _)
  | label n s c =>
    refine List.forall_mem_cons.2 ⟨?_, isPlacedIn_labelledCode s⟩
    simp [IsPlacedIn, occurrencesList, occurrences, under]
  | decl _ _ | expr _ _ | ret _ _ | brk _ | cont _ | goto _ _ | empty _ =>
    simp [labelledCode]

theorem isPlacedIn_labelledCodeList (items : List Stmt) :
    ∀ entry ∈ labelledCodeList items, IsPlacedIn (occurrencesList items) entry := by
  cases items with
  | nil => simp [labelledCodeList]
  | cons s rest =>
    refine List.forall_mem_append.2 ⟨fun entry hentry => ?_, fun entry hentry => ?_⟩
    · exact (isPlacedIn_labelledCode s entry hentry).mono (List.subset_append_left _ _)
    · refine (isPlacedIn_deeper (isPlacedIn_labelledCodeList rest) entry hentry).mono ?_
      exact List.subset_append_right _ _

end

end Stmt

namespace Block

/-- The code captured for each label of a body, with the declarations that are in scope where it
starts. The first entry for a label counts. -/
def labelledCode (b : Block) : List (String × List Decl × List Stmt) :=
  Stmt.itemLabelledCode b.items ++ Stmt.labelledCodeList b.items

/-- Captured code is the labelled code without its place and its labels. -/
theorem captures_eq (b : Block) :
    b.captures = b.labelledCode.map (Prod.map id fun entry => Stmt.dropLabelsList entry.2) := by
  rw [captures, Stmt.itemCaptures_eq, Stmt.capturesList_eq, ← List.map_append, List.map_map]
  rfl

/-- What stands in the code captured for a label stands in the body. -/
theorem under_occurrences_subset {b : Block} {l : String} {ds : List Decl} {code : List Stmt}
    (h : (l, ds, code) ∈ b.labelledCode) :
    under ds (Stmt.occurrencesList code) ⊆ Stmt.occurrencesList b.items := by
  rcases List.mem_append.1 h with h | h
  · exact Stmt.isPlacedIn_itemLabelledCode b.items _ h
  · exact Stmt.isPlacedIn_labelledCodeList b.items _ h

end Block

end MathKernel
