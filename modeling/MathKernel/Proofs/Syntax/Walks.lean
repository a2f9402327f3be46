import Mathlib.Algebra.GroupWithZero.Nat
import Mathlib.Data.List.Forall2
import MathKernel.Proofs.Syntax.Subexpressions

/-!
# What walks give and what they leave alone

A walk rebuilds a tree in a monad, and what it is used with says which results it can have. Two
kinds of facts are stated for every walk: a property of the results of the visited nodes is one of
the rebuilt tree, and a tree whose nodes are all left alone is left alone.

## Main definitions

* `EnsuresMonad` — monads whose computations can be said to have only results with a property

## Main results

* `Expr.bottomUpM_ensures`, `Block.bottomUpM_ensures` — a property that holds of a node once it
  holds below it
* `Expr.bottomUpM_eq_pure`, `Block.mapExprsM_eq_pure`, `Block.mapBlocksM_eq_pure` — walks that
  find nothing to change
-/

namespace MathKernel

/-- A monad whose computations can be said to have only results with a property. -/
class EnsuresMonad (m : Type → Type) [Monad m] where
  /-- Every result of the computation has the property. -/
  Ensures {α : Type} : m α → (α → Prop) → Prop
  ensures_pure {α : Type} {P : α → Prop} {a : α} : P a → Ensures (pure a) P
  ensures_bind {α β : Type} {P : α → Prop} {Q : β → Prop} {x : m α} {f : α → m β} :
    Ensures x P → (∀ a, P a → Ensures (f a) Q) → Ensures (x >>= f) Q

export EnsuresMonad (Ensures ensures_pure ensures_bind)

namespace Counted

instance : LawfulMonad Counted :=
  LawfulMonad.mk' Counted
    (fun x => rfl)
    (fun a f => by
      change Counted.mk (f a).value (0 + (f a).count) = f a
      rw [Nat.zero_add])
    (fun x f g => congrArg (Counted.mk _) (Nat.add_assoc _ _ _))

@[simp] theorem count_pure {α : Type} (a : α) : (pure a : Counted α).count = 0 := rfl

@[simp] theorem count_bind {α β : Type} (x : Counted α) (f : α → Counted β) :
    (x >>= f).count = x.count + (f x.value).count := rfl

@[simp] theorem value_change {α : Type} (a : α) : (change a).value = a := rfl

@[simp] theorem count_change {α : Type} (a : α) : (change a).count = 1 := rfl

@[simp] theorem value_map {α β : Type} (f : α → β) (x : Counted α) : (f <$> x).value = f x.value :=
  rfl

@[simp] theorem count_map {α β : Type} (f : α → β) (x : Counted α) : (f <$> x).count = x.count :=
  rfl

theorem value_mapM {α β : Type} (f : α → Counted β) (items : List α) :
    (items.mapM f).value = items.map fun a => (f a).value := by
  induction items with
  | nil => rfl
  | cons a rest ih =>
    rw [List.mapM_cons, value_bind, value_bind, value_pure, ih]
    rfl

theorem count_mapM {α β : Type} (f : α → Counted β) (items : List α) :
    (items.mapM f).count = (items.map fun a => (f a).count).sum := by
  induction items with
  | nil => rfl
  | cons a rest ih =>
    rw [List.mapM_cons, count_bind, count_bind, count_pure, ih]
    rfl

instance : EnsuresMonad Counted where
  Ensures x P := P x.value
  ensures_pure h := h
  ensures_bind hx hf := hf _ hx

end Counted

instance {ε : Type} : EnsuresMonad (Except ε) where
  Ensures x P := ∀ a, x = .ok a → P a
  ensures_pure h a ha := by
    cases ha
    exact h
  ensures_bind {α β P Q x f} hx hf b hb := by
    cases x with
    | error e => cases hb
    | ok a => exact hf a (hx a rfl) b hb

instance : EnsuresMonad Id where
  Ensures x P := P x
  ensures_pure h := h
  ensures_bind hx hf := hf _ hx

instance {σ : Type} {m : Type → Type} [Monad m] [EnsuresMonad m] : EnsuresMonad (StateT σ m) where
  Ensures x P := ∀ s, Ensures (x.run s) fun result => P result.1
  ensures_pure h _ := ensures_pure h
  ensures_bind hx hf s := ensures_bind (hx s) fun result hresult => hf result.1 hresult result.2

/-- Results that have a property where the state keeps one of its own. -/
@[reducible] def EnsuresMonad.keeping {σ : Type} {m : Type → Type} [Monad m] [EnsuresMonad m]
    (I : σ → Prop) : EnsuresMonad (StateT σ m) where
  Ensures x P := ∀ s, I s → Ensures (x.run s) fun result => P result.1 ∧ I result.2
  ensures_pure h _ hs := ensures_pure ⟨h, hs⟩
  ensures_bind hx hf s hs :=
    ensures_bind (hx s hs) fun result hresult => hf result.1 hresult.1 result.2 hresult.2

theorem StateM.run_bind_eq {σ α β : Type} (x : StateM σ α) (f : α → StateM σ β) (s : σ) :
    (x >>= f).run s = (f (x.run s).1).run (x.run s).2 :=
  rfl

theorem StateM.run_pure_eq {σ α : Type} (a : α) (s : σ) : (pure a : StateM σ α).run s = (a, s) :=
  rfl

section Lists

variable {m : Type → Type} [Monad m] [LawfulMonad m] {α β : Type} {f : α → m β}

/-- Each element is related to its result. -/
theorem ensures_mapM [EnsuresMonad m] {R : α → β → Prop} (items : List α)
    (h : ∀ a ∈ items, Ensures (f a) (R a)) : Ensures (items.mapM f) (List.Forall₂ R items) := by
  induction items with
  | nil => exact ensures_pure .nil
  | cons a rest ih =>
    rw [List.mapM_cons]
    obtain ⟨ha, hrest⟩ := List.forall_mem_cons.1 h
    refine ensures_bind ha fun b hb => ensures_bind (ih hrest) fun bs hbs => ?_
    exact ensures_pure (.cons hb hbs)

theorem mapM_eq_pure {f : α → m α} {items : List α} (h : ∀ a ∈ items, f a = pure a) :
    items.mapM f = pure items := by
  induction items with
  | nil => simp
  | cons a rest ih =>
    obtain ⟨ha, hrest⟩ := List.forall_mem_cons.1 h
    simp [List.mapM_cons, ha, ih hrest]

theorem forall_of_forall₂ {R : α → β → Prop} {P : β → Prop} {items : List α} {results : List β}
    (h : List.Forall₂ R items results) (hP : ∀ a ∈ items, ∀ b, R a b → P b) :
    ∀ b ∈ results, P b := by
  induction h with
  | nil => simp
  | cons hab _ ih =>
    obtain ⟨ha, hrest⟩ := List.forall_mem_cons.1 hP
    exact List.forall_mem_cons.2 ⟨ha _ hab, ih hrest⟩

end Lists

/-! ### Expressions -/

namespace Expr

theorem sizeOf_lt_of_mem_parts {e part : Expr} (h : part ∈ e.parts) : sizeOf part < sizeOf e := by
  -- In each case the part is one of the arguments, or one of a list that is.
  cases e <;> simp only [parts, List.mem_cons, List.not_mem_nil, or_false] at h
  case call callee args c =>
    have := List.sizeOf_lt_of_mem h
    simp only [call.sizeOf_spec]
    omega
  case initList items c =>
    have := List.sizeOf_lt_of_mem h
    simp only [initList.sizeOf_spec]
    omega
  case comma items c =>
    have := List.sizeOf_lt_of_mem h
    simp only [comma.sizeOf_spec]
    omega
  case unary | cast =>
    subst h
    simp only [unary.sizeOf_spec, cast.sizeOf_spec]
    omega
  case binary | assign | index =>
    rcases h with rfl | rfl <;> simp <;> omega
  case ternary =>
    rcases h with rfl | rfl | rfl <;> simp <;> omega

/-- Induction over the parts of expressions. -/
theorem parts_induction {motive : Expr → Prop}
    (h : ∀ e, (∀ part ∈ e.parts, motive part) → motive e) (e : Expr) : motive e :=
  h e fun part hpart =>
    have := sizeOf_lt_of_mem_parts hpart
    parts_induction h part
termination_by sizeOf e

/-- What is below an expression is below all that the expression is below. -/
theorem subexprs_subset {e s : Expr} (hs : s ∈ e.subexprs) : s.subexprs ⊆ e.subexprs := by
  induction e using parts_induction with
  | h e ih =>
    rw [subexprs_eq] at hs
    rcases List.mem_cons.1 hs with rfl | hs
    · exact List.Subset.refl _
    · obtain ⟨part, hpart, hs⟩ := List.mem_flatMap.1 hs
      intro t ht
      rw [subexprs_eq]
      exact List.mem_cons_of_mem _ (List.mem_flatMap.2 ⟨part, hpart, ih part hpart hs ht⟩)

theorem Everywhere.of_mem {p : Expr → Prop} {e s : Expr} (h : e.Everywhere p)
    (hs : s ∈ e.subexprs) : s.Everywhere p :=
  fun t ht => h t (subexprs_subset hs ht)

/-- The expression with other parts; their number stays. -/
def withParts : Expr → List Expr → Expr
  | unary op _ c, [e] => unary op e c
  | cast type _ c, [e] => cast type e c
  | binary op _ _ c, [l, r] => binary op l r c
  | assign op _ _ c, [t, v] => assign op t v c
  | index _ _ c, [a, i] => index a i c
  | ternary _ _ _ c, [p, t, e] => ternary p t e c
  | call callee _ c, args => call callee args c
  | initList _ c, items => initList items c
  | comma _ c, items => comma items c
  | e, _ => e

theorem withParts_parts (e : Expr) : e.withParts e.parts = e := by
  cases e <;> rfl

theorem parts_withParts {e : Expr} {parts : List Expr} (h : parts.length = e.parts.length) :
    (e.withParts parts).parts = parts := by
  cases e with
  | id | literal => exact (List.eq_nil_of_length_eq_zero h).symm
  | unary | cast =>
    obtain ⟨e, rfl⟩ := List.length_eq_one_iff.1 h
    rfl
  | binary | assign | index =>
    obtain ⟨l, r, rfl⟩ := List.length_eq_two.1 h
    rfl
  | ternary =>
    obtain ⟨p, t, e, rfl⟩ := List.length_eq_three.1 h
    rfl
  | call | initList | comma => rfl

/-- The property of a node does not depend on its parts. -/
def IsHeadProperty (p : Expr → Prop) : Prop :=
  ∀ e parts, p e → p (e.withParts parts)

theorem isHeadProperty_idName? (p : Option String → Prop) :
    IsHeadProperty fun e => p e.idName? := by
  intro e parts h
  fun_cases withParts e parts <;> exact h

/-- Whether a node writes does not depend on its parts. -/
theorem isHeadProperty_writeTarget? : IsHeadProperty (·.writeTarget? = none) := by
  intro e parts h
  fun_cases withParts e parts <;> first | exact h | cases h | simpa [writeTarget?] using h

section Walk

variable {m : Type → Type} [Monad m] [LawfulMonad m] {f : Expr → m Expr}

theorem bottomUpListM_eq (f : Expr → m Expr) (items : List Expr) :
    bottomUpListM f items = items.mapM (bottomUpM f) := by
  induction items with
  | nil => simp [bottomUpListM]
  | cons e rest ih => simp [bottomUpListM, List.mapM_cons, ih]

theorem bottomUpM_eq (f : Expr → m Expr) (e : Expr) :
    e.bottomUpM f = e.parts.mapM (bottomUpM f) >>= fun parts => f (e.withParts parts) := by
  cases e <;> simp [bottomUpM, parts, withParts, bottomUpListM_eq, List.mapM_cons]

/-- A walk leaves an expression alone if it leaves each node alone. -/
theorem bottomUpM_eq_pure {e : Expr} (h : e.Everywhere fun s => f s = pure s) :
    e.bottomUpM f = pure e := by
  induction e using parts_induction with
  | h e ih =>
    obtain ⟨hnode, hparts⟩ := everywhere_iff.1 h
    rw [bottomUpM_eq, mapM_eq_pure fun part hpart => ih part hpart (hparts part hpart), pure_bind,
      withParts_parts, hnode]

/-- A property holds everywhere in the result of a walk if each step gives it, once it holds in
the parts. The step may use what a node has whatever its parts are. -/
theorem bottomUpM_ensures [EnsuresMonad m] {p q : Expr → Prop} (hp : IsHeadProperty p)
    (hf : ∀ e, p e → (∀ part ∈ e.parts, part.Everywhere q) → Ensures (f e) (Everywhere q))
    {e : Expr} (h : e.Everywhere p) : Ensures (e.bottomUpM f) (Everywhere q) := by
  induction e using parts_induction with
  | h e ih =>
    obtain ⟨hnode, hparts⟩ := everywhere_iff.1 h
    rw [bottomUpM_eq]
    have hsteps := ensures_mapM (R := fun _ => Everywhere q) e.parts fun part hpart =>
      ih part hpart (hparts part hpart)
    refine ensures_bind hsteps fun parts hall => hf _ (hp e parts hnode) ?_
    rw [parts_withParts hall.length_eq.symm]
    exact forall_of_forall₂ hall fun _ _ _ hpart => hpart

end Walk

end Expr

/-! ### Statements -/

section Statements

variable {m : Type → Type} [Monad m] [LawfulMonad m] {f : Expr → m Expr}

theorem mapOptionM_eq_pure {e : Option Expr} (h : ∀ x ∈ e.toList, f x = pure x) :
    mapOptionM f e = pure e := by
  cases e with
  | none => rfl
  | some e => simp [mapOptionM, h e (by simp)]

theorem Declarator.mapSizeM_eq_pure {t : Declarator Decl}
    (h : ∀ item size c, t = .array item size c → ∀ x ∈ size.toList, f x = pure x) :
    t.mapSizeM f = pure t := by
  cases t with
  | element t => rfl
  | function params result c => rfl
  | array item size c => simp [Declarator.mapSizeM, mapOptionM_eq_pure (h item size c rfl)]

theorem Decl.mapExprsM_eq_pure {d : Decl} (h : ∀ e ∈ d.rootExprs, f e = pure e) :
    d.mapExprsM f = pure d := by
  have hsize : d.type.mapSizeM f = pure d.type := by
    refine Declarator.mapSizeM_eq_pure fun item size c htype x hx => h x ?_
    exact List.mem_append_left _ (by simpa [Decl.size?, htype] using hx)
  have hinit : mapOptionM f d.init = pure d.init :=
    mapOptionM_eq_pure fun x hx => h x (List.mem_append_right _ hx)
  rw [Decl.mapExprsM, hsize, pure_bind, hinit, pure_bind]
  cases d
  rfl

theorem Decl.mapExprsListM_eq (f : Expr → m Expr) (ds : List Decl) :
    Decl.mapExprsListM f ds = ds.mapM (Decl.mapExprsM f) := by
  induction ds with
  | nil => simp [Decl.mapExprsListM]
  | cons d rest ih => simp [Decl.mapExprsListM, List.mapM_cons, ih]

theorem ForInit.mapExprsM_eq_pure (init : Option ForInit)
    (h : ∀ e ∈ init.toList.flatMap ForInit.rootExprs, f e = pure e) :
    ForInit.mapExprsM f init = pure init := by
  match init with
  | none => rfl
  | some (.decls ds) =>
    have hds : ds.mapM (Decl.mapExprsM f) = pure ds := mapM_eq_pure fun d hd =>
      Decl.mapExprsM_eq_pure fun e he => h e (by simpa [ForInit.rootExprs] using ⟨d, hd, he⟩)
    simp [ForInit.mapExprsM, Decl.mapExprsListM_eq, hds]
  | some (.expr e) => simp [ForInit.mapExprsM, h e (by simp [ForInit.rootExprs])]

namespace Stmt

mutual

theorem mapExprsM_eq_pure (s : Stmt) (h : ∀ x ∈ s.substmts, ∀ e ∈ x.ownExprs, f e = pure e) :
    s.mapExprsM f = pure s := by
  have hown : ∀ e ∈ s.ownExprs, f e = pure e := h s (by cases s <;> simp [substmts])
  cases s with
  | decl d c => simp [mapExprsM, Decl.mapExprsM_eq_pure hown]
  | block items b c =>
    have hitems := mapExprsListM_eq_pure items fun x hx => h x (List.mem_cons_of_mem _ hx)
    simp [mapExprsM, hitems]
  | expr e c => simp [mapExprsM, hown e (by simp [ownExprs])]
  | ifThen p t c =>
    have ht := mapExprsM_eq_pure t fun x hx => h x (List.mem_cons_of_mem _ hx)
    simp [mapExprsM, ht, hown p (by simp [ownExprs])]
  | ifElse p t e c =>
    have ht := mapExprsM_eq_pure t fun x hx =>
      h x (List.mem_cons_of_mem _ (List.mem_append_left _ hx))
    have he := mapExprsM_eq_pure e fun x hx =>
      h x (List.mem_cons_of_mem _ (List.mem_append_right _ hx))
    simp [mapExprsM, ht, he, hown p (by simp [ownExprs])]
  | forLoop init cond next body c =>
    have hinit := ForInit.mapExprsM_eq_pure init fun e he => hown e (by simp_all [ownExprs])
    have hcond := mapOptionM_eq_pure (e := cond) fun e he => hown e (by simp_all [ownExprs])
    have hnext := mapOptionM_eq_pure (e := next) fun e he => hown e (by simp_all [ownExprs])
    have hbody := mapExprsM_eq_pure body fun x hx => h x (List.mem_cons_of_mem _ hx)
    simp [mapExprsM, hinit, hcond, hnext, hbody]
  | whileLoop p body c | doWhile p body c =>
    have hbody := mapExprsM_eq_pure body fun x hx => h x (List.mem_cons_of_mem _ hx)
    simp [mapExprsM, hbody, hown p (by simp [ownExprs])]
  | ret value c =>
    have hvalue := mapOptionM_eq_pure (e := value) hown
    simp [mapExprsM, hvalue]
  | label n s c =>
    have hs := mapExprsM_eq_pure s fun x hx => h x (List.mem_cons_of_mem _ hx)
    simp [mapExprsM, hs]
  | brk | cont | goto | empty => rfl

theorem mapExprsListM_eq_pure (items : List Stmt)
    (h : ∀ x ∈ substmtsList items, ∀ e ∈ x.ownExprs, f e = pure e) :
    mapExprsListM f items = pure items := by
  cases items with
  | nil => rfl
  | cons s rest =>
    have hs := mapExprsM_eq_pure s fun x hx => h x (List.mem_append_left _ hx)
    have hrest := mapExprsListM_eq_pure rest fun x hx => h x (List.mem_append_right _ hx)
    simp [mapExprsListM, hs, hrest]

end

variable {g : Block → m Block}

mutual

theorem mapBlocksM_eq_pure (s : Stmt)
    (h : ∀ items b c, block items b c ∈ s.substmts → g ⟨items, b⟩ = pure ⟨items, b⟩) :
    s.mapBlocksM g = pure s := by
  cases s with
  | block items b c =>
    have hitems := mapBlocksListM_eq_pure items fun i b c hx => h i b c (List.mem_cons_of_mem _ hx)
    simp [mapBlocksM, hitems, h items b c (by simp [substmts])]
  | ifThen p t c =>
    have ht := mapBlocksM_eq_pure t fun i b c hx => h i b c (List.mem_cons_of_mem _ hx)
    simp [mapBlocksM, ht]
  | ifElse p t e c =>
    have ht := mapBlocksM_eq_pure t fun i b c hx =>
      h i b c (List.mem_cons_of_mem _ (List.mem_append_left _ hx))
    have he := mapBlocksM_eq_pure e fun i b c hx =>
      h i b c (List.mem_cons_of_mem _ (List.mem_append_right _ hx))
    simp [mapBlocksM, ht, he]
  | forLoop init cond next body c =>
    have hbody := mapBlocksM_eq_pure body fun i b c hx => h i b c (List.mem_cons_of_mem _ hx)
    simp [mapBlocksM, hbody]
  | whileLoop p body c | doWhile p body c =>
    have hbody := mapBlocksM_eq_pure body fun i b c hx => h i b c (List.mem_cons_of_mem _ hx)
    simp [mapBlocksM, hbody]
  | label n s c =>
    have hs := mapBlocksM_eq_pure s fun i b c hx => h i b c (List.mem_cons_of_mem _ hx)
    simp [mapBlocksM, hs]
  | decl | expr | ret | brk | cont | goto | empty => rfl

theorem mapBlocksListM_eq_pure (items : List Stmt)
    (h : ∀ i b c, block i b c ∈ substmtsList items → g ⟨i, b⟩ = pure ⟨i, b⟩) :
    mapBlocksListM g items = pure items := by
  cases items with
  | nil => rfl
  | cons s rest =>
    have hs := mapBlocksM_eq_pure s fun i b c hx => h i b c (List.mem_append_left _ hx)
    have hrest := mapBlocksListM_eq_pure rest fun i b c hx => h i b c (List.mem_append_right _ hx)
    simp [mapBlocksListM, hs, hrest]

end

end Stmt

namespace Block

/-- A walk leaves a body alone if it leaves each of its expressions alone. -/
theorem bottomUpM_eq_pure {b : Block} (h : ∀ e ∈ b.exprs, f e = pure e) :
    b.bottomUpM f = pure b := by
  have hitems := Stmt.mapExprsListM_eq_pure (f := Expr.bottomUpM f) b.items fun s hs e he =>
    Expr.bottomUpM_eq_pure fun x hx =>
      h x (List.mem_flatMap.2 ⟨s, hs, List.mem_flatMap.2 ⟨e, he, hx⟩⟩)
  simp [bottomUpM, mapExprsM, hitems]

/-- A walk leaves a body alone if it leaves each of its blocks alone. -/
theorem mapBlocksM_eq_pure {g : Block → m Block} {b : Block} (h : ∀ x ∈ b.blocks, g x = pure x) :
    b.mapBlocksM g = pure b := by
  have hitems := Stmt.mapBlocksListM_eq_pure (g := g) b.items fun items c c' hs =>
    h ⟨items, c⟩ (List.mem_cons_of_mem _ (List.mem_filterMap.2 ⟨_, hs, rfl⟩))
  simp [mapBlocksM, hitems, h b (by simp [blocks])]

end Block

end Statements

/-! ### Element types -/

theorem Declarator.elementType_mapElement {δ : Type} (g : ElementType → ElementType)
    (d : Declarator δ) : (d.mapElement g).elementType = g d.elementType := by
  induction d with
  | element type => rfl
  | function params result c ih => exact ih
  | array item size c ih => exact ih

theorem Decl.scalar_rename (d : Decl) (name : String) : (d.rename name).scalar = d.scalar := by
  rw [scalar, rename, Declarator.elementType_mapElement]
  rfl

theorem Decl.scalar_mapExprsM (f : Expr → Counted Expr) (d : Decl) :
    (d.mapExprsM f).value.scalar = d.scalar := by
  obtain ⟨name, quals, storage, type, init, c⟩ := d
  cases type <;> rfl

/-! ### Properties that a walk over outermost expressions gives -/

section Results

variable {m : Type → Type} [Monad m] [EnsuresMonad m] {f : Expr → m Expr} {Q : Expr → Prop}

theorem mapOptionM_ensures (hf : ∀ e, Ensures (f e) Q) (e : Option Expr) :
    Ensures (mapOptionM f e) fun e' => ∀ x ∈ e'.toList, Q x := by
  cases e with
  | none => exact ensures_pure (by simp)
  | some e => exact ensures_bind (hf e) fun e' he => ensures_pure (by simpa using he)

theorem Declarator.mapSizeM_ensures (hf : ∀ e, Ensures (f e) Q) (t : Declarator Decl) :
    Ensures (t.mapSizeM f) fun t' =>
      ∀ item size c, t' = .array item size c → ∀ x ∈ size.toList, Q x := by
  cases t with
  | element t => exact ensures_pure nofun
  | function params result c => exact ensures_pure nofun
  | array item size c =>
    refine ensures_bind (mapOptionM_ensures hf size) fun size' hsize => ensures_pure ?_
    rintro _ _ _ ⟨⟩
    exact hsize

theorem Decl.mapExprsM_ensures (hf : ∀ e, Ensures (f e) Q) (d : Decl) :
    Ensures (d.mapExprsM f) fun d' => ∀ e ∈ d'.rootExprs, Q e := by
  refine ensures_bind (Declarator.mapSizeM_ensures hf d.type) fun type htype => ?_
  refine ensures_bind (mapOptionM_ensures hf d.init) fun init hinit => ensures_pure ?_
  refine List.forall_mem_append.2 ⟨fun x hx => ?_, hinit⟩
  cases type with
  | element | function => cases hx
  | array item size c => exact htype item size c rfl x hx

theorem Decl.mapExprsListM_ensures (hf : ∀ e, Ensures (f e) Q) (ds : List Decl) :
    Ensures (Decl.mapExprsListM f ds) fun ds' => ∀ e ∈ ds'.flatMap Decl.rootExprs, Q e := by
  induction ds with
  | nil => exact ensures_pure nofun
  | cons d rest ih =>
    refine ensures_bind (Decl.mapExprsM_ensures hf d) fun d' hd => ?_
    refine ensures_bind ih fun rest' hrest => ensures_pure ?_
    exact List.forall_mem_append.2 ⟨hd, hrest⟩

theorem ForInit.mapExprsM_ensures (hf : ∀ e, Ensures (f e) Q) (init : Option ForInit) :
    Ensures (ForInit.mapExprsM f init) fun init' =>
      ∀ e ∈ init'.toList.flatMap ForInit.rootExprs, Q e := by
  match init with
  | none => exact ensures_pure (by simp)
  | some (.expr e) =>
    exact ensures_bind (hf e) fun e' he => ensures_pure (by simpa [ForInit.rootExprs] using he)
  | some (.decls ds) =>
    refine ensures_bind (Decl.mapExprsListM_ensures hf ds) fun ds' hds => ensures_pure ?_
    simpa [ForInit.rootExprs] using hds

namespace Stmt

mutual

theorem mapExprsM_ensures (hf : ∀ e, Ensures (f e) Q) (s : Stmt) :
    Ensures (s.mapExprsM f) fun s' => ∀ x ∈ s'.substmts, ∀ e ∈ x.ownExprs, Q e := by
  cases s with
  | decl d c =>
    refine ensures_bind (Decl.mapExprsM_ensures hf d) fun d' hd => ensures_pure ?_
    exact List.forall_mem_singleton.2 hd
  | block items b c =>
    refine ensures_bind (mapExprsListM_ensures hf items) fun items' hitems => ensures_pure ?_
    exact List.forall_mem_cons.2 ⟨nofun, hitems⟩
  | expr e c =>
    refine ensures_bind (hf e) fun e' he => ensures_pure ?_
    exact List.forall_mem_singleton.2 (List.forall_mem_singleton.2 he)
  | ifThen p t c =>
    refine ensures_bind (hf p) fun p' hp => ?_
    refine ensures_bind (mapExprsM_ensures hf t) fun t' ht => ensures_pure ?_
    exact List.forall_mem_cons.2 ⟨List.forall_mem_singleton.2 hp, ht⟩
  | ifElse p t e c =>
    refine ensures_bind (hf p) fun p' hp => ?_
    refine ensures_bind (mapExprsM_ensures hf t) fun t' ht => ?_
    refine ensures_bind (mapExprsM_ensures hf e) fun e' he => ensures_pure ?_
    exact List.forall_mem_cons.2
      ⟨List.forall_mem_singleton.2 hp, List.forall_mem_append.2 ⟨ht, he⟩⟩
  | forLoop init cond next body c =>
    refine ensures_bind (ForInit.mapExprsM_ensures hf init) fun init' hinit => ?_
    refine ensures_bind (mapOptionM_ensures hf cond) fun cond' hcond => ?_
    refine ensures_bind (mapOptionM_ensures hf next) fun next' hnext => ?_
    refine ensures_bind (mapExprsM_ensures hf body) fun body' hbody => ensures_pure ?_
    refine List.forall_mem_cons.2 ⟨?_, hbody⟩
    exact List.forall_mem_append.2 ⟨List.forall_mem_append.2 ⟨hinit, hcond⟩, hnext⟩
  | whileLoop p body c | doWhile p body c =>
    refine ensures_bind (hf p) fun p' hp => ?_
    refine ensures_bind (mapExprsM_ensures hf body) fun body' hbody => ensures_pure ?_
    exact List.forall_mem_cons.2 ⟨List.forall_mem_singleton.2 hp, hbody⟩
  | ret value c =>
    refine ensures_bind (mapOptionM_ensures hf value) fun value' hvalue => ensures_pure ?_
    exact List.forall_mem_singleton.2 hvalue
  | label n s c =>
    refine ensures_bind (mapExprsM_ensures hf s) fun s' hs => ensures_pure ?_
    exact List.forall_mem_cons.2 ⟨nofun, hs⟩
  | brk | cont | goto | empty => exact ensures_pure (List.forall_mem_singleton.2 nofun)

theorem mapExprsListM_ensures (hf : ∀ e, Ensures (f e) Q) (items : List Stmt) :
    Ensures (mapExprsListM f items) fun items' =>
      ∀ x ∈ substmtsList items', ∀ e ∈ x.ownExprs, Q e := by
  cases items with
  | nil => exact ensures_pure nofun
  | cons s rest =>
    refine ensures_bind (mapExprsM_ensures hf s) fun s' hs => ?_
    refine ensures_bind (mapExprsListM_ensures hf rest) fun rest' hrest => ensures_pure ?_
    exact List.forall_mem_append.2 ⟨hs, hrest⟩

end

end Stmt

/-- A property that a walk gives everywhere in an expression, it gives to every expression of a
body. -/
theorem Block.bottomUpM_ensures (hf : ∀ e : Expr, Ensures (e.bottomUpM f) (Expr.Everywhere Q))
    (b : Block) : Ensures (b.bottomUpM f) fun b' => ∀ e ∈ b'.exprs, Q e := by
  refine ensures_bind (Stmt.mapExprsListM_ensures hf b.items) fun items hitems => ensures_pure ?_
  intro e he
  obtain ⟨s, hs, he⟩ := List.mem_flatMap.1 he
  obtain ⟨root, hroot, he⟩ := List.mem_flatMap.1 he
  exact hitems s hs root hroot e he

end Results

end MathKernel
