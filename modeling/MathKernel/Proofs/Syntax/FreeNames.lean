import MathKernel.Normalize.Scope

/-!
# Free names under block scoping

The identifiers of a body that no declaration of the body binds. A name is bound from its
declaration to the end of the block; every branch and every loop body is a scope of its own,
with or without braces.

The walks of `MathKernel.Normalize.Scope` let a declaration that stands alone as a branch or loop
body go on into the block around it. The two views agree when declarations stand only in blocks
and in the clauses of `for` loops, which is where C has them.

## Main definitions

* `Stmt.freeIds`, `FuncDef.freeIds` — the free identifiers
* `Stmt.declsInBlocks` — declarations stand only in blocks and `for` clauses

## Main results

* `Stmt.exists_scopedExprs_of_mem_freeIds` — the walk meets each free identifier unhidden
* `Stmt.exists_scopedExprs_of_mem_substmts` — the walk meets every expression
-/

namespace MathKernel

/-- The identifiers in an expression. -/
def Expr.ids (e : Expr) : List String :=
  e.subexprs.filterMap Expr.idName?

/-- The identifiers in an expression that may be absent. -/
def Expr.idsOption (e : Option Expr) : List String :=
  e.toList.flatMap Expr.ids

/-- The identifiers in a declaration's size and initializer. -/
def Decl.ids (d : Decl) : List String :=
  d.rootExprs.flatMap Expr.ids

/-- What is free in declarations that are followed by code with the given free names. -/
def Decl.freeIdsBefore (inner : List String) : List Decl → List String
  | [] => inner
  | d :: rest => d.ids ++ (freeIdsBefore inner rest).filter (!d.name.toList.contains ·)

/-- What is free in a loop with the given initializer clause and free names after it. -/
def ForInit.freeIdsBefore (inner : List String) : Option ForInit → List String
  | none => inner
  | some (.decls ds) => Decl.freeIdsBefore inner ds
  | some (.expr e) => e.ids ++ inner

namespace Stmt

/-- The names that a statement binds in the rest of its block. -/
def binds : Stmt → List String
  | decl d _ => d.name.toList
  | label _ s _ => s.binds
  | _ => []

mutual

/-- The free identifiers of a statement. -/
def freeIds : Stmt → List String
  | decl d _ => d.ids
  | block items _ _ => freeIdsList items
  | expr e _ => e.ids
  | ifThen p t _ => p.ids ++ t.freeIds
  | ifElse p t e _ => p.ids ++ t.freeIds ++ e.freeIds
  | forLoop init cond next body _ =>
    ForInit.freeIdsBefore (Expr.idsOption cond ++ Expr.idsOption next ++ body.freeIds) init
  | whileLoop p body _ => p.ids ++ body.freeIds
  | doWhile p body _ => p.ids ++ body.freeIds
  | ret value _ => Expr.idsOption value
  | label _ s _ => s.freeIds
  | brk _ | cont _ | goto .. | empty _ => []

/-- The free identifiers of the items of a block. -/
def freeIdsList : List Stmt → List String
  | [] => []
  | s :: rest => s.freeIds ++ (freeIdsList rest).filter (!s.binds.contains ·)

end

/-- Whether a statement is a declaration, labelled or not. -/
def isDecl : Stmt → Bool
  | decl .. => true
  | label _ s _ => s.isDecl
  | _ => false

mutual

/-- Whether no declaration stands alone as a branch or loop body. -/
def declsInBlocks : Stmt → Bool
  | block items _ _ => declsInBlocksList items
  | ifThen _ t _ => !t.isDecl && t.declsInBlocks
  | ifElse _ t e _ => !t.isDecl && !e.isDecl && t.declsInBlocks && e.declsInBlocks
  | forLoop _ _ _ body _ => !body.isDecl && body.declsInBlocks
  | whileLoop _ body _ => !body.isDecl && body.declsInBlocks
  | doWhile _ body _ => !body.isDecl && body.declsInBlocks
  | label _ s _ => s.declsInBlocks
  | decl .. | expr .. | ret .. | brk _ | cont _ | goto .. | empty _ => true

/-- Whether no declaration inside the items of a block stands alone as a branch or loop body. -/
def declsInBlocksList : List Stmt → Bool
  | [] => true
  | s :: rest => s.declsInBlocks && declsInBlocksList rest

end

theorem binds_of_not_isDecl {s : Stmt} (h : s.isDecl = false) : s.binds = [] := by
  fun_induction isDecl s with
  | case1 => cases h
  | case2 n s c ih => exact ih h
  | case3 s hdecl hlabel => cases s <;> simp_all [binds]

end Stmt

/-- The free identifiers of a function's body, which its parameters do not bind. -/
def FuncDef.freeIds (f : FuncDef) : List String :=
  (Stmt.freeIdsList f.body.items).filter (!f.paramNames.contains ·)

/-! ### The walk and the free identifiers -/

theorem declareName_eq (d : Decl) (hidden : List String) :
    declareName d hidden = d.name.toList ++ hidden := by
  cases hd : d.name <;> simp [declareName, hd]

theorem Decl.mem_scopedExprsList {ds : List Decl} {hidden inner : List String} {x : String}
    (hx : x ∈ Decl.freeIdsBefore inner ds) (hhidden : x ∉ hidden) :
    (∃ p ∈ (Decl.scopedExprsList declareName hidden ds).1, x ∈ p.2.ids ∧ x ∉ p.1) ∨
      x ∈ inner ∧ x ∉ (Decl.scopedExprsList declareName hidden ds).2 := by
  induction ds generalizing hidden with
  | nil => exact .inr ⟨hx, hhidden⟩
  | cons d rest ih =>
    simp only [Decl.scopedExprsList]
    rcases List.mem_append.1 hx with hx | hx
    · obtain ⟨e, he, hxe⟩ := List.mem_flatMap.1 hx
      exact .inl ⟨(hidden, e), by simp [he], hxe, hhidden⟩
    · obtain ⟨hx, hd⟩ := List.mem_filter.1 hx
      have hnew : x ∉ declareName d hidden := by
        rw [declareName_eq]
        simpa [hhidden] using hd
      rcases ih hx hnew with ⟨p, hp, hxp⟩ | hinner
      · exact .inl ⟨p, List.mem_append_right _ hp, hxp⟩
      · exact .inr hinner

theorem Decl.exists_scopedExprsList_of_mem {σ : Type} (declare : Decl → σ → σ) {ds : List Decl}
    {scope : σ} {e : Expr} (he : e ∈ ds.flatMap Decl.rootExprs) :
    ∃ seen, (seen, e) ∈ (Decl.scopedExprsList declare scope ds).1 := by
  induction ds generalizing scope with
  | nil => simp at he
  | cons d rest ih =>
    simp only [List.flatMap_cons, List.mem_append] at he
    simp only [Decl.scopedExprsList, List.mem_append]
    rcases he with he | he
    · exact ⟨scope, .inl (List.mem_map_of_mem he)⟩
    · obtain ⟨seen, hseen⟩ := ih he
      exact ⟨seen, .inr hseen⟩

namespace Stmt

/-- The scope that a statement leaves is the one it found and the names it binds. -/
theorem scopedExprs_snd (s : Stmt) (hidden : List String) (h : s.declsInBlocks) :
    (scopedExprs declareName hidden s).2 = s.binds ++ hidden := by
  cases s with
  | decl d c => exact declareName_eq d hidden
  | label n s c => exact scopedExprs_snd s hidden h
  | ifThen p t c =>
    simp only [declsInBlocks, Bool.and_eq_true, Bool.not_eq_true'] at h
    simp [scopedExprs, scopedExprs_snd t hidden h.2, binds_of_not_isDecl h.1, binds]
  | ifElse p t e c =>
    simp only [declsInBlocks, Bool.and_eq_true, Bool.not_eq_true'] at h
    obtain ⟨⟨⟨ht, he⟩, hdt⟩, hde⟩ := h
    simp [scopedExprs, scopedExprs_snd t hidden hdt, binds_of_not_isDecl ht,
      scopedExprs_snd e hidden hde, binds_of_not_isDecl he, binds]
  | forLoop init cond next body c =>
    simp only [declsInBlocks, Bool.and_eq_true, Bool.not_eq_true'] at h
    rcases init with _ | _ | _ <;>
      simp [scopedExprs, scopedExprs_snd body hidden h.2, binds_of_not_isDecl h.1, binds]
  | whileLoop p body c =>
    simp only [declsInBlocks, Bool.and_eq_true, Bool.not_eq_true'] at h
    simp [scopedExprs, scopedExprs_snd body hidden h.2, binds_of_not_isDecl h.1, binds]
  | doWhile p body c =>
    simp only [declsInBlocks, Bool.and_eq_true, Bool.not_eq_true'] at h
    simp [scopedExprs, scopedExprs_snd body hidden h.2, binds_of_not_isDecl h.1, binds]
  | block | expr | ret | brk | cont | goto | empty => rfl

/-- The walk meets an identifier unhidden. -/
def Meets (x : String) (nodes : List (List String × Expr)) : Prop :=
  ∃ p ∈ nodes, x ∈ p.2.ids ∧ x ∉ p.1

theorem Meets.append_left {x : String} {nodes : List (List String × Expr)} (h : Meets x nodes)
    (more : List (List String × Expr)) : Meets x (nodes ++ more) := by
  obtain ⟨p, hp, hx⟩ := h
  exact ⟨p, List.mem_append_left _ hp, hx⟩

theorem Meets.append_right {x : String} {nodes : List (List String × Expr)} (h : Meets x nodes)
    (more : List (List String × Expr)) : Meets x (more ++ nodes) := by
  obtain ⟨p, hp, hx⟩ := h
  exact ⟨p, List.mem_append_right _ hp, hx⟩

/-- Expressions that see the same names meet every identifier in them that is not among these. -/
theorem meets_map {x : String} {es : List Expr} {hidden : List String}
    (hx : x ∈ es.flatMap Expr.ids) (hhidden : x ∉ hidden) : Meets x (es.map (hidden, ·)) := by
  obtain ⟨e, he, hxe⟩ := List.mem_flatMap.1 hx
  exact ⟨(hidden, e), List.mem_map_of_mem he, hxe, hhidden⟩

mutual

/-- The walk meets each free identifier of a statement that was not hidden before. -/
theorem exists_scopedExprs_of_mem_freeIds (s : Stmt) (hidden : List String) (x : String)
    (h : s.declsInBlocks) (hx : x ∈ s.freeIds) (hhidden : x ∉ hidden) :
    Meets x (scopedExprs declareName hidden s).1 := by
  have hone {e : Expr} (he : x ∈ e.ids) : Meets x ([e].map (hidden, ·)) :=
    meets_map (by simpa using he) hhidden
  cases s with
  | decl d c => exact meets_map hx hhidden
  | block items b c => exact exists_scopedExprs_of_mem_freeIdsList items hidden x h hx hhidden
  | expr e c => exact hone hx
  | ifThen p t c =>
    simp only [declsInBlocks, Bool.and_eq_true] at h
    rcases List.mem_append.1 hx with hx | hx
    · exact (hone hx).append_left _
    · exact (exists_scopedExprs_of_mem_freeIds t hidden x h.2 hx hhidden).append_right [_]
  | ifElse p t e c =>
    simp only [declsInBlocks, Bool.and_eq_true, Bool.not_eq_true'] at h
    obtain ⟨⟨⟨ht, -⟩, hdt⟩, hde⟩ := h
    have hbetween : (scopedExprs declareName hidden t).2 = hidden := by
      simp [scopedExprs_snd t hidden hdt, binds_of_not_isDecl ht]
    simp only [scopedExprs, hbetween]
    rcases List.mem_append.1 hx with hx | hx
    · rcases List.mem_append.1 hx with hx | hx
      · exact ((hone hx).append_left _).append_left _
      · have ih := exists_scopedExprs_of_mem_freeIds t hidden x hdt hx hhidden
        exact (ih.append_right [_]).append_left _
    · exact (exists_scopedExprs_of_mem_freeIds e hidden x hde hx hhidden).append_right _
  | forLoop init cond next body c =>
    simp only [declsInBlocks, Bool.and_eq_true] at h
    -- The clauses and the body see the names that the initializer clause declares.
    have hinner {inner : List String} (hinner : x ∉ inner)
        (hx : x ∈ Expr.idsOption cond ++ Expr.idsOption next ++ body.freeIds) :
        Meets x ((cond.toList ++ next.toList).map (inner, ·) ++
          (scopedExprs declareName inner body).1) := by
      rcases List.mem_append.1 hx with hx | hx
      · refine (meets_map ?_ hinner).append_left _
        simpa [Expr.idsOption] using hx
      · exact (exists_scopedExprs_of_mem_freeIds body inner x h.2 hx hinner).append_right _
    rcases init with _ | ds | e
    · exact hinner hhidden hx
    · simp only [scopedExprs, List.append_assoc]
      rcases Decl.mem_scopedExprsList hx hhidden with hmet | ⟨hx, hx'⟩
      · exact Meets.append_left hmet _
      · exact Meets.append_right (hinner hx' hx) _
    · rcases List.mem_append.1 hx with hx | hx
      · exact (hone hx).append_left _
      · exact (hinner hhidden hx).append_right [_]
  | whileLoop p body c | doWhile p body c =>
    simp only [declsInBlocks, Bool.and_eq_true] at h
    rcases List.mem_append.1 hx with hx | hx
    · exact (hone hx).append_left _
    · exact (exists_scopedExprs_of_mem_freeIds body hidden x h.2 hx hhidden).append_right [_]
  | ret value c => exact meets_map hx hhidden
  | label n s c => exact exists_scopedExprs_of_mem_freeIds s hidden x h hx hhidden
  | brk | cont | goto | empty => simp [freeIds] at hx

/-- The walk meets each free identifier of a block's items that was not hidden before. -/
theorem exists_scopedExprs_of_mem_freeIdsList (items : List Stmt) (hidden : List String)
    (x : String) (h : declsInBlocksList items) (hx : x ∈ freeIdsList items)
    (hhidden : x ∉ hidden) : Meets x (scopedExprsList declareName hidden items).1 := by
  cases items with
  | nil => simp [freeIdsList] at hx
  | cons s rest =>
    simp only [declsInBlocksList, Bool.and_eq_true] at h
    simp only [scopedExprsList, scopedExprs_snd s hidden h.1]
    rcases List.mem_append.1 hx with hx | hx
    · exact (exists_scopedExprs_of_mem_freeIds s hidden x h.1 hx hhidden).append_left _
    · obtain ⟨hx, hbinds⟩ := List.mem_filter.1 hx
      have hnew : x ∉ s.binds ++ hidden := by simpa [hhidden] using hbinds
      exact (exists_scopedExprs_of_mem_freeIdsList rest _ x h.2 hx hnew).append_right _

end

/-! ### The walk and all expressions -/

theorem mem_scopedExprs_ownExprs {σ : Type} {declare : Decl → σ → σ} {scope : σ} {s : Stmt}
    {e : Expr} (he : e ∈ s.ownExprs) : ∃ seen, (seen, e) ∈ (scopedExprs declare scope s).1 := by
  cases s with
  | forLoop init cond next body c =>
    rcases init with _ | ds | i
    · have hclauses : e ∈ cond.toList ++ next.toList := by simpa [ownExprs] using he
      exact ⟨scope, List.mem_append_left _ (List.mem_map_of_mem hclauses)⟩
    · simp only [ownExprs, Option.toList_some, List.flatMap_singleton, ForInit.rootExprs,
        List.append_assoc, List.mem_append] at he
      simp only [scopedExprs, List.mem_append]
      rcases he with he | he
      · obtain ⟨seen, hseen⟩ := Decl.exists_scopedExprsList_of_mem declare he
        exact ⟨seen, .inl (.inl hseen)⟩
      · exact ⟨_, .inl (.inr (List.mem_map_of_mem (List.mem_append.2 he)))⟩
    · have hclauses : e ∈ i :: cond.toList ++ next.toList := by
        simpa [ownExprs, ForInit.rootExprs] using he
      exact ⟨scope, List.mem_append_left _ (List.mem_map_of_mem hclauses)⟩
  | _ => exact ⟨scope, by simp_all [ownExprs, scopedExprs]⟩

mutual

/-- The walk meets every expression of a statement. -/
theorem exists_scopedExprs_of_mem_substmts {σ : Type} {declare : Decl → σ → σ} (s : Stmt)
    (scope : σ) {part : Stmt} {e : Expr} (hpart : part ∈ s.substmts) (he : e ∈ part.ownExprs) :
    ∃ seen, (seen, e) ∈ (scopedExprs declare scope s).1 := by
  by_cases hself : part = s
  · exact mem_scopedExprs_ownExprs (hself ▸ he)
  cases s with
  | block items b c =>
    have hpart : part ∈ substmtsList items := by simpa [substmts, hself] using hpart
    exact exists_scopedExprs_of_mem_substmtsList items scope hpart he
  | ifThen p t c =>
    have hpart : part ∈ t.substmts := by simpa [substmts, hself] using hpart
    obtain ⟨seen, hseen⟩ := exists_scopedExprs_of_mem_substmts t scope hpart he
    exact ⟨seen, List.mem_cons_of_mem _ hseen⟩
  | ifElse p t e' c =>
    have hpart : part ∈ t.substmts ∨ part ∈ e'.substmts := by
      simpa [substmts, hself] using hpart
    rcases hpart with hpart | hpart
    · obtain ⟨seen, hseen⟩ := exists_scopedExprs_of_mem_substmts t scope hpart he
      exact ⟨seen, List.mem_append_left _ (List.mem_cons_of_mem _ hseen)⟩
    · obtain ⟨seen, hseen⟩ := exists_scopedExprs_of_mem_substmts e' _ hpart he
      exact ⟨seen, List.mem_append_right _ hseen⟩
  | forLoop init cond next body c =>
    have hbody : part ∈ body.substmts := by simpa [substmts, hself] using hpart
    rcases init with _ | ds | i <;>
    · obtain ⟨seen, hseen⟩ := exists_scopedExprs_of_mem_substmts body _ hbody he
      exact ⟨seen, List.mem_append_right _ hseen⟩
  | whileLoop p body c | doWhile p body c =>
    have hpart : part ∈ body.substmts := by simpa [substmts, hself] using hpart
    obtain ⟨seen, hseen⟩ := exists_scopedExprs_of_mem_substmts body scope hpart he
    exact ⟨seen, List.mem_cons_of_mem _ hseen⟩
  | label n s c =>
    have hpart : part ∈ s.substmts := by simpa [substmts, hself] using hpart
    exact exists_scopedExprs_of_mem_substmts s scope hpart he
  | decl | expr | ret | brk | cont | goto | empty => simp_all [substmts]

/-- The walk meets every expression of a block's items. -/
theorem exists_scopedExprs_of_mem_substmtsList {σ : Type} {declare : Decl → σ → σ}
    (items : List Stmt) (scope : σ) {part : Stmt} {e : Expr} (hpart : part ∈ substmtsList items)
    (he : e ∈ part.ownExprs) : ∃ seen, (seen, e) ∈ (scopedExprsList declare scope items).1 := by
  cases items with
  | nil => simp [substmtsList] at hpart
  | cons s rest =>
    rcases List.mem_append.1 hpart with hpart | hpart
    · obtain ⟨seen, hseen⟩ := exists_scopedExprs_of_mem_substmts s scope hpart he
      exact ⟨seen, List.mem_append_left _ hseen⟩
    · obtain ⟨seen, hseen⟩ := exists_scopedExprs_of_mem_substmtsList rest _ hpart he
      exact ⟨seen, List.mem_append_right _ hseen⟩

end

end Stmt

end MathKernel
