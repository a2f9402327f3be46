import MathKernel.Proofs.Normalize.Fragments
import MathKernel.Proofs.Normalize.Jumps

/-!
# Control flow between fragments

The passes that rebuild statements move them: the statement under a label, or the lone statement of
a loop body, becomes an item of a block. They therefore start from a fragment in which any
declaration may be an item.

## Main results

* `SourceUnit.eliminateJumps_isIn`, `SourceUnit.boundLoops_isIn`
-/

namespace MathKernel

/-- The fragment in which any declaration may be an item of a block. -/
def Fragment.anyItem (F : Fragment) : Fragment :=
  { F with item := fun _ _ => True }

theorem Fragment.frame_anyItem (F : Fragment) : F.Frame F.anyItem :=
  ⟨fun h => h, fun h => h, fun h => h, fun h => h, fun _ _ _ => trivial⟩

theorem Block.IsIn.anyItem {F : Fragment} {b : Block} (h : b.IsIn F) : b.IsIn F.anyItem :=
  Block.IsIn.mono F.frame_anyItem (fun e he => by cases e <;> exact he) h

/-! ### Jumps -/

/-- Without jumps and labels. -/
def Fragment.withoutJumps (F : Fragment) : Fragment :=
  { F with gotos := False, labels := False, item := fun _ _ => True }

namespace Stmt

variable {F : Fragment}

theorem isItemIn_of_forall (hitem : ∀ name isStatic, F.item name isStatic) (s : Stmt) :
    s.IsItemIn F := by
  cases s with
  | decl d c => exact hitem _ _
  | _ => exact trivial

mutual

theorem dropLabels_isIn (hitem : ∀ name isStatic, F.item name isStatic) (s : Stmt)
    (h : s.IsIn F) : s.dropLabels.IsIn { F with labels := False } := by
  cases s with
  | decl d c => exact ⟨h.spelled, h.exprs⟩
  | block items b c => exact dropLabelsList_areIn hitem items h
  | ifThen p t c => exact ⟨h.1, dropLabels_isIn hitem t h.2⟩
  | ifElse p t e c => exact ⟨h.1, dropLabels_isIn hitem t h.2.1, dropLabels_isIn hitem e h.2.2⟩
  | forLoop init cond next body c =>
    obtain ⟨hinit, hcond, hnext, hbody⟩ := h
    refine ⟨fun i hi => ?_, hcond, hnext, dropLabels_isIn hitem body hbody⟩
    have hi := hinit i hi
    cases i with
    | decls ds => exact fun d hd => ⟨(hi d hd).spelled, (hi d hd).exprs⟩
    | expr e => exact hi
  | whileLoop p body c | doWhile p body c => exact ⟨h.1, h.2.1, dropLabels_isIn hitem body h.2.2⟩
  | label n s c => exact dropLabels_isIn hitem s h.2
  | expr | ret | brk | cont | goto | empty => exact h

theorem dropLabelsList_areIn (hitem : ∀ name isStatic, F.item name isStatic) (items : List Stmt)
    (h : AreIn F items) : AreIn { F with labels := False } (dropLabelsList items) := by
  cases items with
  | nil => exact trivial
  | cons s rest =>
    exact ⟨isItemIn_of_forall hitem _, dropLabels_isIn hitem s h.2.1,
      dropLabelsList_areIn hitem rest h.2.2⟩

end

theorem AreIn.of_subset {items items' : List Stmt} (h : AreIn F items) (hsub : items' ⊆ items) :
    AreIn F items' :=
  areIn_iff.2 fun s hs => areIn_iff.1 h s (hsub hs)

theorem itemCaptures_areIn {items : List Stmt} (h : AreIn F items) :
    ∀ entry ∈ itemCaptures items, AreIn F entry.2 := by
  induction items with
  | nil => simp [itemCaptures]
  | cons s rest ih =>
    refine List.forall_mem_append.2 ⟨fun entry hentry => ?_, ih h.2.2⟩
    obtain ⟨label, -, rfl⟩ := List.mem_map.1 hentry
    exact h.of_subset (takeThroughReturn_subset _)

mutual

theorem captures_areIn (hitem : ∀ name isStatic, F.item name isStatic) (s : Stmt)
    (h : s.IsIn F) : ∀ entry ∈ s.captures, AreIn F entry.2 := by
  cases s with
  | block items b c =>
    exact List.forall_mem_append.2 ⟨itemCaptures_areIn h, capturesList_areIn hitem items h⟩
  | ifThen p t c => exact captures_areIn hitem t h.2
  | ifElse p t e c =>
    exact List.forall_mem_append.2 ⟨captures_areIn hitem t h.2.1, captures_areIn hitem e h.2.2⟩
  | forLoop init cond next body c => exact captures_areIn hitem body h.2.2.2
  | whileLoop p body c | doWhile p body c => exact captures_areIn hitem body h.2.2
  | label n s c =>
    refine List.forall_mem_cons.2 ⟨?_, captures_areIn hitem s h.2⟩
    exact ⟨isItemIn_of_forall hitem s, h.2, trivial⟩
  | decl | expr | ret | brk | cont | goto | empty => simp [captures]

theorem capturesList_areIn (hitem : ∀ name isStatic, F.item name isStatic) (items : List Stmt)
    (h : AreIn F items) : ∀ entry ∈ capturesList items, AreIn F entry.2 := by
  cases items with
  | nil => simp [capturesList]
  | cons s rest =>
    exact List.forall_mem_append.2
      ⟨captures_areIn hitem s h.2.1, capturesList_areIn hitem rest h.2.2⟩

end

section Gotos

variable {m : Type → Type} [Monad m] [EnsuresMonad m] {f : String → Coord → m Stmt}

mutual

theorem mapGotosM_isIn (hitem : ∀ name isStatic, F.item name isStatic)
    (hf : ∀ l c, Ensures (f l c) (IsIn { F with gotos := False })) (s : Stmt) (h : s.IsIn F) :
    Ensures (s.mapGotosM f) (IsIn { F with gotos := False }) := by
  cases s with
  | decl d c => exact ensures_pure ⟨h.spelled, h.exprs⟩
  | block items b c =>
    exact ensures_bind (mapGotosListM_areIn hitem hf items h) fun _ hitems => ensures_pure hitems
  | ifThen p t c =>
    exact ensures_bind (mapGotosM_isIn hitem hf t h.2) fun _ ht => ensures_pure ⟨h.1, ht⟩
  | ifElse p t e c =>
    refine ensures_bind (mapGotosM_isIn hitem hf t h.2.1) fun _ ht => ?_
    exact ensures_bind (mapGotosM_isIn hitem hf e h.2.2) fun _ he => ensures_pure ⟨h.1, ht, he⟩
  | forLoop init cond next body c =>
    obtain ⟨hinit, hcond, hnext, hbody⟩ := h
    refine ensures_bind (mapGotosM_isIn hitem hf body hbody) fun _ hbody' => ?_
    refine ensures_pure ⟨fun i hi => ?_, hcond, hnext, hbody'⟩
    have hi := hinit i hi
    cases i with
    | decls ds => exact fun d hd => ⟨(hi d hd).spelled, (hi d hd).exprs⟩
    | expr e => exact hi
  | whileLoop p body c | doWhile p body c =>
    refine ensures_bind (mapGotosM_isIn hitem hf body h.2.2) fun _ hbody => ?_
    exact ensures_pure ⟨h.1, h.2.1, hbody⟩
  | label n s c =>
    exact ensures_bind (mapGotosM_isIn hitem hf s h.2) fun _ hs => ensures_pure ⟨h.1, hs⟩
  | goto l c => exact hf l c
  | expr | ret | brk | cont | empty => exact ensures_pure h

theorem mapGotosListM_areIn (hitem : ∀ name isStatic, F.item name isStatic)
    (hf : ∀ l c, Ensures (f l c) (IsIn { F with gotos := False })) (items : List Stmt)
    (h : AreIn F items) : Ensures (mapGotosListM f items) (AreIn { F with gotos := False }) := by
  cases items with
  | nil => exact ensures_pure trivial
  | cons s rest =>
    refine ensures_bind (mapGotosM_isIn hitem hf s h.2.1) fun s' hs => ?_
    refine ensures_bind (mapGotosListM_areIn hitem hf rest h.2.2) fun rest' hrest => ?_
    exact ensures_pure ⟨isItemIn_of_forall hitem s', hs, hrest⟩

end

end Gotos

end Stmt

theorem Block.captures_areIn {F : Fragment} (hitem : ∀ name isStatic, F.item name isStatic)
    {b : Block} (h : b.IsIn F) :
    ∀ entry ∈ b.captures, Stmt.AreIn { F with labels := False } entry.2 := by
  intro entry hentry
  obtain ⟨found, hfound, rfl⟩ := List.mem_map.1 hentry
  refine Stmt.dropLabelsList_areIn hitem _ ?_
  rcases List.mem_append.1 hfound with hfound | hfound
  · exact Stmt.itemCaptures_areIn h found hfound
  · exact Stmt.capturesList_areIn hitem b.items h found hfound

/-- What replaces a jump has no jumps left, whatever the jumps of the captured code are. -/
theorem expandGoto_isIn {F : Fragment} (hitem : ∀ name isStatic, F.item name isStatic)
    {captures : List (String × List Stmt)} (hcaptures : ∀ entry ∈ captures, Stmt.AreIn F entry.2)
    (function : String) (fuel : Nat) (active : List String) (l : String) (c : Coord) :
    Ensures (expandGoto captures function fuel active l c)
      (Stmt.IsIn { F with gotos := False }) := by
  induction fuel generalizing active l c with
  | zero =>
    intro n result hresult
    cases hresult
  | succ fuel ih =>
    unfold expandGoto
    split
    · intro n result hresult
      cases hresult
    · split
      · intro n result hresult
        cases hresult
      · next items hlookup =>
        have hitems : Stmt.AreIn F items := hcaptures (l, items) (mem_of_lookup_eq_some hlookup)
        have hexpanded := Stmt.mapGotosListM_areIn (m := Expansion) hitem
          (ih (l :: active)) items hitems
        refine ensures_bind hexpanded fun items' hitems' => ?_
        refine ensures_bind (P := fun _ => True) (fun n result hresult => trivial) fun _ _ => ?_
        exact ensures_pure hitems'

theorem Block.cutAfterReturn_isIn {F : Fragment} {b : Block} (h : b.IsIn F) :
    (b.mapBlocksM Block.cutAfterReturn).value.IsIn F := by
  have hcut (b : Block) (hb : ∀ s ∈ b.items, s.IsItemIn F ∧ s.IsIn { F with item := F.item }) :
      b.cutAfterReturn.value.IsIn { F with item := F.item } :=
    Stmt.areIn_iff.2 fun s hs => hb s (Block.subset_cutAfterReturn b hs)
  exact Block.mapBlocksM_isIn (m := Counted) hcut h

namespace Stmt

variable {F : Fragment}

mutual

/-- A statement without jumps needs none in its fragment. -/
theorem IsIn.withoutJumps (hitem : ∀ name isStatic, F.item name isStatic) {s : Stmt}
    (h : s.IsIn F) (hjump : ∀ x ∈ s.substmts, x.isJump = false) : s.IsIn F.withoutJumps := by
  have hnode : s.isJump = false := hjump s (by cases s <;> simp [substmts])
  cases s with
  | decl d c => exact ⟨h.spelled, h.exprs⟩
  | block items b c =>
    exact AreIn.withoutJumps hitem items h fun x hx => hjump x (List.mem_cons_of_mem _ hx)
  | ifThen p t c =>
    exact ⟨h.1, IsIn.withoutJumps hitem h.2 fun x hx => hjump x (List.mem_cons_of_mem _ hx)⟩
  | ifElse p t e c =>
    refine ⟨h.1, IsIn.withoutJumps hitem h.2.1 fun x hx => ?_,
      IsIn.withoutJumps hitem h.2.2 fun x hx => ?_⟩
    · exact hjump x (List.mem_cons_of_mem _ (List.mem_append_left _ hx))
    · exact hjump x (List.mem_cons_of_mem _ (List.mem_append_right _ hx))
  | forLoop init cond next body c =>
    obtain ⟨hinit, hcond, hnext, hbody⟩ := h
    refine ⟨fun i hi => ?_, hcond, hnext,
      IsIn.withoutJumps hitem hbody fun x hx => hjump x (List.mem_cons_of_mem _ hx)⟩
    have hi := hinit i hi
    cases i with
    | decls ds => exact fun d hd => ⟨(hi d hd).spelled, (hi d hd).exprs⟩
    | expr e => exact hi
  | whileLoop p body c | doWhile p body c =>
    exact ⟨h.1, h.2.1,
      IsIn.withoutJumps hitem h.2.2 fun x hx => hjump x (List.mem_cons_of_mem _ hx)⟩
  | label | goto => cases hnode
  | expr | ret | brk | cont | empty => exact h

theorem AreIn.withoutJumps (hitem : ∀ name isStatic, F.item name isStatic) (items : List Stmt)
    (h : AreIn F items) (hjump : ∀ x ∈ substmtsList items, x.isJump = false) :
    AreIn F.withoutJumps items := by
  cases items with
  | nil => exact trivial
  | cons s rest =>
    refine ⟨isItemIn_of_forall (fun _ _ => trivial) s,
      IsIn.withoutJumps hitem h.2.1 fun x hx => hjump x (List.mem_append_left _ hx),
      AreIn.withoutJumps hitem rest h.2.2 fun x hx => hjump x (List.mem_append_right _ hx)⟩

end

end Stmt

theorem FuncDef.eliminateJumps_isIn {F : Fragment} {f : FuncDef} (h : Item.IsIn F (.func f)) :
    Ensures f.eliminateJumps fun result => Item.IsIn F.withoutJumps (.func result.1) := by
  have hany : ∀ name isStatic, F.anyItem.item name isStatic := fun _ _ => trivial
  have hbody : f.body.IsIn F.anyItem := h.2.anyItem
  unfold FuncDef.eliminateJumps
  by_cases hjump : f.body.stmts.any Stmt.isJump = true
  · rw [if_pos hjump]
    -- Labels are dropped first; then each jump is replaced by code without jumps.
    have hcaptures := Block.captures_areIn hany hbody
    have hunlabelled := Stmt.dropLabelsList_areIn hany f.body.items hbody
    have hexpanded := Stmt.mapGotosListM_areIn (m := Expansion) (fun _ _ => trivial)
      (expandGoto_isIn (fun _ _ => trivial) hcaptures f.name (f.body.captures.length + 1) [])
      _ hunlabelled 0
    refine ensures_bind hexpanded fun expanded hitems => ensures_pure ⟨h.1, ?_⟩
    exact Block.cutAfterReturn_isIn (b := ⟨expanded.1, f.body.coord⟩) hitems
  · rw [if_neg hjump]
    refine ensures_pure ⟨h.1, Stmt.AreIn.withoutJumps hany f.body.items hbody fun x hx => ?_⟩
    by_contra hx'
    exact hjump (List.any_eq_true.2 ⟨x, hx, by simpa using hx'⟩)

theorem eliminateJumpsInItems_isIn {F : Fragment} {items : List Item}
    (h : ∀ item ∈ items, item.IsIn F) :
    Ensures (eliminateJumpsInItems items) fun result =>
      ∀ item ∈ result.1, item.IsIn F.withoutJumps := by
  induction items with
  | nil => exact ensures_pure (by simp)
  | cons item rest ih =>
    obtain ⟨hitem, hrest⟩ := List.forall_mem_cons.1 h
    cases item with
    | decl d =>
      refine ensures_bind (ih hrest) fun result hresult => ensures_pure ?_
      exact List.forall_mem_cons.2 ⟨⟨hitem.spelled, hitem.exprs⟩, hresult⟩
    | func f =>
      refine ensures_bind (FuncDef.eliminateJumps_isIn hitem) fun here hhere => ?_
      refine ensures_bind (ih hrest) fun result hresult => ensures_pure ?_
      exact List.forall_mem_cons.2 ⟨hhere, hresult⟩

theorem SourceUnit.eliminateJumps_isIn {F : Fragment} {u : SourceUnit} (h : u.IsIn F) :
    Ensures u.eliminateJumps fun result => result.1.IsIn F.withoutJumps :=
  ensures_bind (eliminateJumpsInItems_isIn h) fun _ hresult => ensures_pure hresult

/-! ### Loops -/

/-- Without loops other than `for`. -/
def Fragment.withoutOpenLoops (F : Fragment) : Fragment :=
  { F with openLoops := False, item := fun _ _ => True }

namespace Stmt

variable {F : Fragment}

theorem bodyItems_areIn (hitem : ∀ name isStatic, F.item name isStatic) {s : Stmt}
    (h : s.IsIn F) : AreIn F s.bodyItems := by
  cases s with
  | block items b c => exact h
  | empty c => exact trivial
  | _ => exact ⟨isItemIn_of_forall hitem _, h, trivial⟩

theorem exitUnless_isIn {p : Expr} (h : p.IsIn F) : (exitUnless p).IsIn F :=
  ⟨Expr.isIn_unary.2 h, trivial⟩

theorem countedLoop_isIn (hF : F.Permits) (counter : String) {items : List Stmt} (c : Coord)
    (h : AreIn F items) : (countedLoop counter items c).IsIn F := by
  have hint (n : Int) : (Expr.int n none).IsIn F := Expr.isIn_literal.2 (hF.int n)
  refine ⟨?_, ?_, ?_, h⟩
  · rintro i ⟨⟩ d hd
    obtain rfl := List.mem_singleton.1 hd
    refine ⟨.inr rfl, fun e he => ?_⟩
    obtain rfl := List.mem_singleton.1 he
    exact hint 0
  · rintro e ⟨⟩
    exact Expr.isIn_binary.2 ⟨Expr.isIn_id, hint _⟩
  · rintro e ⟨⟩
    exact Expr.isIn_unary.2 Expr.isIn_id

mutual

theorem boundLoops_isIn (hF : F.Permits) (s : Stmt) (h : s.IsIn F) :
    Ensures s.boundLoops (IsIn F.withoutOpenLoops) := by
  have hpermits : F.withoutOpenLoops.Permits := ⟨hF.int, hF.float, hF.callee⟩
  have hname : Ensures takeName fun _ => True := fun _ _ _ => trivial
  have hitem : ∀ name isStatic, F.withoutOpenLoops.item name isStatic := fun _ _ => trivial
  cases s with
  | decl d c => exact ensures_pure ⟨h.spelled, h.exprs⟩
  | block items b c =>
    exact ensures_bind (boundLoopsList_areIn hF items h) fun _ hitems => ensures_pure hitems
  | ifThen p t c => exact ensures_bind (boundLoops_isIn hF t h.2) fun _ ht => ensures_pure ⟨h.1, ht⟩
  | ifElse p t e c =>
    refine ensures_bind (boundLoops_isIn hF t h.2.1) fun _ ht => ?_
    exact ensures_bind (boundLoops_isIn hF e h.2.2) fun _ he => ensures_pure ⟨h.1, ht, he⟩
  | forLoop init cond next body c =>
    obtain ⟨hinit, hcond, hnext, hbody⟩ := h
    refine ensures_bind (boundLoops_isIn hF body hbody) fun _ hbody' => ?_
    refine ensures_pure ⟨fun i hi => ?_, hcond, hnext, hbody'⟩
    have hi := hinit i hi
    cases i with
    | decls ds => exact fun d hd => ⟨(hi d hd).spelled, (hi d hd).exprs⟩
    | expr e => exact hi
  | whileLoop p body c =>
    refine ensures_bind hname fun counter _ => ?_
    refine ensures_bind (boundLoops_isIn hF body h.2.2) fun _ hbody => ensures_pure ?_
    exact countedLoop_isIn hpermits counter c
      ⟨trivial, exitUnless_isIn (F := F.withoutOpenLoops) h.2.1, bodyItems_areIn hitem hbody⟩
  | doWhile p body c =>
    refine ensures_bind hname fun counter _ => ?_
    refine ensures_bind (boundLoops_isIn hF body h.2.2) fun _ hbody => ensures_pure ?_
    refine countedLoop_isIn hpermits counter c (areIn_iff.2 (List.forall_mem_append.2 ⟨?_, ?_⟩))
    · exact areIn_iff.1 (bodyItems_areIn hitem hbody)
    · exact List.forall_mem_singleton.2
        ⟨trivial, exitUnless_isIn (F := F.withoutOpenLoops) h.2.1⟩
  | label n s c => exact ensures_bind (boundLoops_isIn hF s h.2) fun _ hs => ensures_pure ⟨h.1, hs⟩
  | expr | ret | brk | cont | goto | empty => exact ensures_pure h

theorem boundLoopsList_areIn (hF : F.Permits) (items : List Stmt) (h : AreIn F items) :
    Ensures (boundLoopsList items) (AreIn F.withoutOpenLoops) := by
  cases items with
  | nil => exact ensures_pure trivial
  | cons s rest =>
    refine ensures_bind (boundLoops_isIn hF s h.2.1) fun s' hs => ?_
    refine ensures_bind (boundLoopsList_areIn hF rest h.2.2) fun rest' hrest => ?_
    exact ensures_pure ⟨isItemIn_of_forall (fun _ _ => trivial) s', hs, hrest⟩

end

end Stmt

theorem SourceUnit.boundLoops_isIn {F : Fragment} (hF : F.Permits) (pool : NamePool)
    {u : SourceUnit} (h : u.IsIn F) :
    Ensures (u.boundLoops pool) fun result => result.1.IsIn F.withoutOpenLoops := by
  have hitem (item : Item) (hitem : item.IsIn F) :
      Ensures item.boundLoops (Item.IsIn F.withoutOpenLoops) := by
    cases item with
    | decl d => exact ensures_pure ⟨hitem.spelled, hitem.exprs⟩
    | func f =>
      have hbody := Stmt.boundLoopsList_areIn hF f.body.items hitem.2
      refine ensures_bind (P := Block.IsIn F.withoutOpenLoops) ?_ fun _ hbody =>
        ensures_pure ⟨hitem.1, hbody⟩
      exact ensures_bind hbody fun _ hitems => ensures_pure hitems
  have hitems := SourceUnit.mapItemsM_isIn (m := Stmt.Naming) hitem h pool
  exact ensures_bind hitems fun _ hresult => ensures_pure hresult

end MathKernel
