import MathKernel.Proofs.Normalize.Literals
import MathKernel.Proofs.Normalize.Unchanged

/-!
# Canonical spellings

After one run of the pass every type is spelled by its one word and every literal is canonical,
and a unit that is spelled so is left alone.

## Main definitions

* `Fragment.spelled` — canonical literals, and types spelled by their one word

## Main results

* `SourceUnit.respell_isIn`, `SourceUnit.respell_eq_self`
-/

namespace MathKernel

/-! ### Types and literals of a unit -/

/-- Canonical literals, and types spelled by their one word. -/
def Fragment.spelled : Fragment :=
  { Fragment.whole with spellings := False, literal := Literal.IsCanonical }

theorem Fragment.permits_spelled : Fragment.spelled.Permits :=
  ⟨Literal.isCanonical_int, Literal.isCanonical_float, fun _ _ => trivial⟩

theorem Expr.respelled?_eq_none_iff {v : Literal} {c : Coord} :
    (literal v c).respelled? = none ↔ v.IsCanonical := by
  unfold Literal.IsCanonical
  simp only [Expr.respelled?]
  cases v.canonical? with
  | none => simp
  | some normal => simp

theorem Expr.respell_isIn (e : Expr) : e.respell.value.IsIn .spelled := by
  refine Expr.bottomUpM_isIn (m := Counted) (F := .whole) (fun e _ hparts => ?_) e.isIn_whole
  refine replace_isIn hparts (fun e' h => ?_) fun hnone => ?_
  · cases e with
    | literal v c =>
      simp only [Expr.respelled?] at h
      split at h
      · next normal hnormal =>
        simp only [Option.ite_none_left_eq_some, Option.some.injEq] at h
        obtain ⟨-, rfl⟩ := h
        exact Expr.isIn_literal.2 (Literal.isCanonical_canonical? hnormal)
      · cases h
    | _ => cases h
  · cases e with
    | literal v c => exact Expr.respelled?_eq_none_iff.1 hnone
    | _ => exact trivial

theorem ElementType.respell_names (t : ElementType) :
    t.respell.value.names = [t.respell.value.scalar.cName] := by
  unfold ElementType.respell
  split
  · next h => exact h
  · rfl

mutual

theorem Decl.respellType_isSpelled (d : Decl) : d.respellType.value.IsSpelled := by
  cases d with
  | mk name quals storage type init c =>
    simp only [Decl.respellType, Counted.value_bind, Counted.value_pure, Decl.IsSpelled]
    exact Declarator.respell_isSpelled type

theorem Declarator.respell_isSpelled (t : Declarator Decl) :
    Declarator.IsSpelled t.respell.value := by
  cases t with
  | element t =>
    simp only [Declarator.respell, Counted.value_bind, Counted.value_pure, Declarator.IsSpelled]
    exact t.respell_names
  | array item size c =>
    simp only [Declarator.respell, Counted.value_bind, Counted.value_pure, Declarator.IsSpelled]
    exact Declarator.respell_isSpelled item
  | function params result c =>
    simp only [Declarator.respell, Counted.value_bind, Counted.value_pure, Declarator.IsSpelled]
    exact ⟨Declarator.respellParams_areSpelled params, Declarator.respell_isSpelled result⟩

theorem Declarator.respellParams_areSpelled (params : List Decl) :
    Declarator.AreSpelled (Declarator.respellParams params).value := by
  cases params with
  | nil => simp [Declarator.respellParams, Declarator.AreSpelled]
  | cons d rest =>
    simp only [Declarator.respellParams, Counted.value_bind, Counted.value_pure,
      Declarator.AreSpelled]
    exact ⟨Decl.respellType_isSpelled d, Declarator.respellParams_areSpelled rest⟩

end

theorem Decl.respell_isIn (d : Decl) : d.respell.value.IsIn .spelled := by
  have htype : Declarator.IsSpelled d.respellType.value.type :=
    (Decl.isSpelled_iff _).1 d.respellType_isSpelled
  have hframe : ({ Fragment.whole with spellings := False } : Fragment).Frame .spelled :=
    ⟨fun h => h, fun h => h, fun h => h, fun h => h, fun _ _ h => h⟩
  have hd : d.respellType.value.IsIn { Fragment.whole with spellings := False } :=
    ⟨.inr htype, fun e _ => e.isIn_whole⟩
  exact (Decl.mapExprsM_isIn (m := Counted) hframe (fun e _ => e.respell_isIn) hd).1

theorem mapOptionM_respell_isIn (e : Option Expr) :
    ∀ x ∈ (mapOptionM Expr.respell e).value, x.IsIn .spelled := by
  cases e with
  | none => nofun
  | some e =>
    rintro x ⟨⟩
    exact e.respell_isIn

namespace Stmt

mutual

theorem respell_isIn (s : Stmt) : s.respell.value.IsIn .spelled := by
  cases s with
  | decl d c => exact d.respell_isIn
  | block items b c => exact respellList_areIn items
  | expr e c => exact e.respell_isIn
  | ifThen p t c => exact ⟨p.respell_isIn, respell_isIn t⟩
  | ifElse p t e c => exact ⟨p.respell_isIn, respell_isIn t, respell_isIn e⟩
  | forLoop init cond next body c =>
    refine ⟨?_, mapOptionM_respell_isIn cond, mapOptionM_respell_isIn next, respell_isIn body⟩
    match init with
    | none => exact nofun
    | some (.decls ds) =>
      rintro i ⟨⟩ d hd
      rw [Counted.value_mapM] at hd
      obtain ⟨d, -, rfl⟩ := List.mem_map.1 hd
      exact d.respell_isIn
    | some (.expr e) =>
      rintro i ⟨⟩
      exact e.respell_isIn
  | whileLoop p body c | doWhile p body c => exact ⟨trivial, p.respell_isIn, respell_isIn body⟩
  | ret value c => exact mapOptionM_respell_isIn value
  | label n s c => exact ⟨trivial, respell_isIn s⟩
  | brk | cont | goto | empty => exact trivial

theorem respellList_areIn (items : List Stmt) : AreIn .spelled (respellList items).value := by
  cases items with
  | nil => exact trivial
  | cons s rest =>
    exact ⟨isItemIn_of_forall (fun _ _ => trivial) _, respell_isIn s, respellList_areIn rest⟩

end

end Stmt

/-- After one run of the pass every type and every literal is in its canonical spelling. -/
theorem SourceUnit.respell_isIn (u : SourceUnit) : u.respell.1.IsIn .spelled := by
  refine SourceUnit.mapItemsM_isIn (m := Counted) (F := .whole) (fun item _ => ?_) u.isIn_whole
  cases item with
  | decl d =>
    have hd := d.respell_isIn
    exact ⟨hd.spelled, hd.exprs⟩
  | func f =>
    exact ⟨.inr (Declarator.respell_isSpelled f.decl.type), Stmt.respellList_areIn f.body.items⟩

/-! ### Units that are spelled canonically -/

/-- The fragment has only canonical spellings. -/
structure Fragment.IsSpelled (F : Fragment) : Prop where
  literal : ∀ v, F.literal v → v.IsCanonical
  spellings : ¬ F.spellings

section Unchanged

variable {F : Fragment}

theorem Expr.IsIn.respell_eq_pure (hF : F.IsSpelled) {e : Expr} (h : e.IsIn F) :
    e.respell = pure e := by
  refine Expr.bottomUpM_eq_pure fun s hs => Counted.replace_eq_pure ?_
  have hnode := h s hs
  cases s with
  | literal v c => exact Expr.respelled?_eq_none_iff.2 (hF.literal v hnode)
  | _ => rfl

mutual

theorem Decl.respellType_eq_pure (d : Decl) (h : d.IsSpelled) : d.respellType = pure d := by
  cases d with
  | mk name quals storage type init c =>
    rw [Decl.IsSpelled] at h
    rw [Decl.respellType, Declarator.respell_eq_pure type h, pure_bind]

theorem Declarator.respell_eq_pure (t : Declarator Decl) (h : Declarator.IsSpelled t) :
    t.respell = pure t := by
  cases t with
  | element t =>
    rw [Declarator.IsSpelled] at h
    rw [Declarator.respell, ElementType.respell, if_pos h, pure_bind]
  | array item size c =>
    rw [Declarator.IsSpelled] at h
    rw [Declarator.respell, Declarator.respell_eq_pure item h, pure_bind]
  | function params result c =>
    rw [Declarator.IsSpelled] at h
    rw [Declarator.respell, Declarator.respellParams_eq_pure params h.1, pure_bind,
      Declarator.respell_eq_pure result h.2, pure_bind]

theorem Declarator.respellParams_eq_pure (params : List Decl) (h : Declarator.AreSpelled params) :
    Declarator.respellParams params = pure params := by
  cases params with
  | nil => rfl
  | cons d rest =>
    rw [Declarator.AreSpelled] at h
    rw [Declarator.respellParams, Decl.respellType_eq_pure d h.1, pure_bind,
      Declarator.respellParams_eq_pure rest h.2, pure_bind]

end

theorem Decl.IsIn.respell_eq_pure (hF : F.IsSpelled) {d : Decl} (h : d.IsIn F) :
    d.respell = pure d := by
  have htype : d.IsSpelled := (Decl.isSpelled_iff d).2 (h.spelled.resolve_left hF.spellings)
  rw [Decl.respell, Decl.respellType_eq_pure d htype, pure_bind]
  exact Decl.mapExprsM_eq_pure fun e he => (h.exprs e he).respell_eq_pure hF

theorem ForInit.IsIn.respell_eq_pure (hF : F.IsSpelled) {init : Option ForInit}
    (h : ∀ i ∈ init, i.IsIn F) : ForInit.respell init = pure init := by
  rcases init with _ | ds | e
  · rfl
  · have hds : ∀ d ∈ ds, d.IsIn F := h _ rfl
    rw [ForInit.respell,
      MathKernel.mapM_eq_pure fun d hd => (hds d hd).respell_eq_pure hF, pure_bind]
  · have he : e.IsIn F := h _ rfl
    rw [ForInit.respell, he.respell_eq_pure hF, pure_bind]

theorem mapOptionM_respell_eq_pure (hF : F.IsSpelled) {e : Option Expr}
    (h : ∀ x ∈ e, x.IsIn F) : mapOptionM Expr.respell e = pure e :=
  mapOptionM_eq_pure fun x hx => (h x (Option.mem_toList.1 hx)).respell_eq_pure hF

namespace Stmt

mutual

theorem IsIn.respell_eq_pure (hF : F.IsSpelled) (s : Stmt) (h : s.IsIn F) :
    s.respell = pure s := by
  cases s with
  | decl d c => rw [respell, Decl.IsIn.respell_eq_pure hF h, pure_bind]
  | block items b c => rw [respell, AreIn.respell_eq_pure hF items h, pure_bind]
  | expr e c => rw [respell, Expr.IsIn.respell_eq_pure hF h, pure_bind]
  | ifThen p t c =>
    rw [respell, h.1.respell_eq_pure hF, pure_bind, IsIn.respell_eq_pure hF t h.2, pure_bind]
  | ifElse p t e c =>
    rw [respell, h.1.respell_eq_pure hF, pure_bind, IsIn.respell_eq_pure hF t h.2.1, pure_bind,
      IsIn.respell_eq_pure hF e h.2.2, pure_bind]
  | forLoop init cond next body c =>
    obtain ⟨hinit, hcond, hnext, hbody⟩ := h
    rw [respell, ForInit.IsIn.respell_eq_pure hF hinit, pure_bind,
      mapOptionM_respell_eq_pure hF hcond, pure_bind,
      mapOptionM_respell_eq_pure hF hnext, pure_bind,
      IsIn.respell_eq_pure hF body hbody, pure_bind]
  | whileLoop p body c | doWhile p body c =>
    rw [respell, h.2.1.respell_eq_pure hF, pure_bind, IsIn.respell_eq_pure hF body h.2.2,
      pure_bind]
  | ret value c =>
    rw [respell, mapOptionM_respell_eq_pure hF h, pure_bind]
  | label n s c => rw [respell, IsIn.respell_eq_pure hF s h.2, pure_bind]
  | brk | cont | goto | empty => rfl

theorem AreIn.respell_eq_pure (hF : F.IsSpelled) (items : List Stmt) (h : AreIn F items) :
    respellList items = pure items := by
  cases items with
  | nil => rfl
  | cons s rest =>
    rw [respellList, IsIn.respell_eq_pure hF s h.2.1, pure_bind,
      AreIn.respell_eq_pure hF rest h.2.2, pure_bind]

end

end Stmt

theorem SourceUnit.respell_eq_self (hF : F.IsSpelled) {u : SourceUnit} (h : u.IsIn F) :
    u.respell = (u, .zero) := by
  have hitems : u.mapItemsM Item.respell = pure u := by
    refine SourceUnit.mapItemsM_eq_pure fun item hitem => ?_
    have hin := h item hitem
    cases item with
    | decl d =>
      have hd : d.respell = pure d :=
        Decl.IsIn.respell_eq_pure (F := F.anyCallee) ⟨hF.literal, hF.spellings⟩ hin
      rw [Item.respell, hd, pure_bind]
    | func f =>
      obtain ⟨⟨name, quals, storage, type, init, c⟩, body, coord⟩ := f
      rw [Item.respell, Stmt.AreIn.respell_eq_pure hF body.items hin.2, pure_bind,
        Declarator.respell_eq_pure type (hin.1.resolve_left hF.spellings), pure_bind]
  rw [SourceUnit.respell, hitems]
  rfl

end Unchanged

end MathKernel
