import MathKernel.Proofs.Syntax.Walks

/-!
# Walks that count their changes

A walk that counts each change it makes, in its result or in its state, gives back the tree it was
given unless it counts something. For a walk over a tree this follows from the same fact about its
steps, whatever the step is applied to: a step meets nodes whose parts are already changed, and
what is counted there stays counted.

## Main definitions

* `CountingMonad` — monads whose computations count the changes that they make
* `CountingMonad.measured` — changes show in a measure of the state, which never goes down

## Main results

* `Expr.bottomUpM_retains`, `Block.bottomUpM_retains`, `Block.mapBlocksM_retains`
-/

namespace MathKernel

/-- A monad whose computations count the changes that they make. -/
class CountingMonad (m : Type → Type) [Monad m] where
  /-- The result is the given value unless a change is counted. -/
  Retains {α : Type} : m α → α → Prop
  retains_pure {α : Type} (a : α) : Retains (pure a) a
  /-- What comes next counts on top, also after a change. -/
  retains_bind {α β : Type} {x : m α} {a : α} {f : α → m β} (g : α → β) :
    Retains x a → (∀ b, Retains (f b) (g b)) → Retains (x >>= f) (g a)

export CountingMonad (Retains retains_pure retains_bind)

instance : CountingMonad Counted where
  Retains x a := x.count = 0 → x.value = a
  retains_pure _ _ := rfl
  retains_bind {α β x a f} g hx hf hcount := by
    have hsum : x.count + (f x.value).count = 0 := hcount
    rw [Counted.value_bind, hf x.value (by omega), hx (by omega)]

/-- Changes show in a measure of the state, which never goes down. -/
@[reducible] def CountingMonad.measured {σ ε : Type} (μ : σ → Nat) :
    CountingMonad (StateT σ (Except ε)) where
  Retains x a := ∀ s b s', x.run s = .ok (b, s') → μ s ≤ μ s' ∧ (μ s' = μ s → b = a)
  retains_pure a s b s' h := by
    cases h
    exact ⟨Nat.le_refl _, fun _ => rfl⟩
  retains_bind {α β x a f} g hx hf s c s'' h := by
    rw [StateT.run_bind] at h
    cases hrun : x.run s with
    | error e =>
      rw [hrun] at h
      cases h
    | ok result =>
      obtain ⟨b, s'⟩ := result
      rw [hrun] at h
      obtain ⟨hle, heq⟩ := hx s b s' hrun
      obtain ⟨hle', heq'⟩ := hf b s' c s'' h
      refine ⟨by omega, fun hstill => ?_⟩
      rw [heq' (by omega), heq (by omega)]

section Walks

variable {m : Type → Type} [Monad m] [CountingMonad m]

/-- A node is put together again around its last part. -/
theorem retains_rebuild {α β : Type} {x : m α} {a : α} (g : α → β) (hx : Retains x a) :
    Retains (x >>= fun b => pure (g b)) (g a) :=
  retains_bind g hx fun b => retains_pure (g b)

theorem retains_mapM [LawfulMonad m] {α : Type} {f : α → m α} {items : List α}
    (h : ∀ a ∈ items, Retains (f a) a) : Retains (items.mapM f) items := by
  induction items with
  | nil => exact retains_pure []
  | cons a rest ih =>
    obtain ⟨ha, hrest⟩ := List.forall_mem_cons.1 h
    rw [List.mapM_cons]
    exact retains_bind (· :: rest) ha fun a' => retains_rebuild (a' :: ·) (ih hrest)

variable {f : Expr → m Expr}

/-- The induction is over parts; the step is applied to the node with its parts as changed. -/
theorem Expr.bottomUpM_retains [LawfulMonad m] (hf : ∀ e, Retains (f e) e) (e : Expr) :
    Retains (e.bottomUpM f) e := by
  induction e using Expr.parts_induction with
  | h e ih =>
    -- The step need not be known to meet `e`: whatever it meets, it counts or gives that back.
    have hparts := retains_bind e.withParts (retains_mapM ih) fun parts => hf (e.withParts parts)
    rwa [← Expr.bottomUpM_eq, Expr.withParts_parts] at hparts

theorem mapOptionM_retains (hf : ∀ e, Retains (f e) e) (e : Option Expr) :
    Retains (mapOptionM f e) e := by
  cases e with
  | none => exact retains_pure none
  | some e => exact retains_rebuild some (hf e)

theorem Declarator.mapSizeM_retains (hf : ∀ e, Retains (f e) e) (t : Declarator Decl) :
    Retains (t.mapSizeM f) t := by
  cases t with
  | element t => exact retains_pure _
  | function params result c => exact retains_pure _
  | array item size c =>
    exact retains_rebuild (Declarator.array item · c) (mapOptionM_retains hf size)

theorem Decl.mapExprsM_retains (hf : ∀ e, Retains (f e) e) (d : Decl) :
    Retains (d.mapExprsM f) d := by
  obtain ⟨name, quals, storage, type, init, c⟩ := d
  exact retains_bind (Decl.mk name quals storage · init c) (Declarator.mapSizeM_retains hf type)
    fun type' => retains_rebuild (Decl.mk name quals storage type' · c) (mapOptionM_retains hf init)

theorem Decl.mapExprsListM_retains (hf : ∀ e, Retains (f e) e) (ds : List Decl) :
    Retains (Decl.mapExprsListM f ds) ds := by
  induction ds with
  | nil => exact retains_pure []
  | cons d rest ih =>
    exact retains_bind (· :: rest) (Decl.mapExprsM_retains hf d) fun d' =>
      retains_rebuild (d' :: ·) ih

theorem ForInit.mapExprsM_retains (hf : ∀ e, Retains (f e) e) (init : Option ForInit) :
    Retains (ForInit.mapExprsM f init) init := by
  match init with
  | none => exact retains_pure none
  | some (.decls ds) =>
    exact retains_rebuild (fun ds => some (ForInit.decls ds)) (Decl.mapExprsListM_retains hf ds)
  | some (.expr e) => exact retains_rebuild (fun e => some (ForInit.expr e)) (hf e)

namespace Stmt

mutual

theorem mapExprsM_retains (hf : ∀ e, Retains (f e) e) (s : Stmt) : Retains (s.mapExprsM f) s := by
  cases s with
  | decl d c => exact retains_rebuild (decl · c) (d.mapExprsM_retains hf)
  | block items b c => exact retains_rebuild (block · b c) (mapExprsListM_retains hf items)
  | expr e c => exact retains_rebuild (expr · c) (hf e)
  | ifThen p t c =>
    exact retains_bind (ifThen · t c) (hf p) fun p' =>
      retains_rebuild (ifThen p' · c) (mapExprsM_retains hf t)
  | ifElse p t e c =>
    exact retains_bind (ifElse · t e c) (hf p) fun p' =>
      retains_bind (ifElse p' · e c) (mapExprsM_retains hf t) fun t' =>
      retains_rebuild (ifElse p' t' · c) (mapExprsM_retains hf e)
  | forLoop init cond next body c =>
    exact retains_bind (forLoop · cond next body c) (ForInit.mapExprsM_retains hf init) fun init' =>
      retains_bind (forLoop init' · next body c) (mapOptionM_retains hf cond) fun cond' =>
      retains_bind (forLoop init' cond' · body c) (mapOptionM_retains hf next) fun next' =>
      retains_rebuild (forLoop init' cond' next' · c) (mapExprsM_retains hf body)
  | whileLoop p body c =>
    exact retains_bind (whileLoop · body c) (hf p) fun p' =>
      retains_rebuild (whileLoop p' · c) (mapExprsM_retains hf body)
  | doWhile p body c =>
    exact retains_bind (doWhile · body c) (hf p) fun p' =>
      retains_rebuild (doWhile p' · c) (mapExprsM_retains hf body)
  | ret value c => exact retains_rebuild (ret · c) (mapOptionM_retains hf value)
  | label n s c => exact retains_rebuild (label n · c) (mapExprsM_retains hf s)
  | brk | cont | goto | empty => exact retains_pure _

theorem mapExprsListM_retains (hf : ∀ e, Retains (f e) e) (items : List Stmt) :
    Retains (mapExprsListM f items) items := by
  cases items with
  | nil => exact retains_pure []
  | cons s rest =>
    exact retains_bind (· :: rest) (mapExprsM_retains hf s) fun s' =>
      retains_rebuild (s' :: ·) (mapExprsListM_retains hf rest)

end

variable {g : Block → m Block}

mutual

theorem mapBlocksM_retains (hg : ∀ b, Retains (g b) b) (s : Stmt) :
    Retains (s.mapBlocksM g) s := by
  cases s with
  | block items b c =>
    exact retains_bind (block · b c) (mapBlocksListM_retains hg items) fun items' =>
      retains_rebuild (fun x => block x.items x.coord c) (hg ⟨items', b⟩)
  | ifThen p t c => exact retains_rebuild (ifThen p · c) (mapBlocksM_retains hg t)
  | ifElse p t e c =>
    exact retains_bind (ifElse p · e c) (mapBlocksM_retains hg t) fun t' =>
      retains_rebuild (ifElse p t' · c) (mapBlocksM_retains hg e)
  | forLoop init cond next body c =>
    exact retains_rebuild (forLoop init cond next · c) (mapBlocksM_retains hg body)
  | whileLoop p body c => exact retains_rebuild (whileLoop p · c) (mapBlocksM_retains hg body)
  | doWhile p body c => exact retains_rebuild (doWhile p · c) (mapBlocksM_retains hg body)
  | label n s c => exact retains_rebuild (label n · c) (mapBlocksM_retains hg s)
  | decl | expr | ret | brk | cont | goto | empty => exact retains_pure _

theorem mapBlocksListM_retains (hg : ∀ b, Retains (g b) b) (items : List Stmt) :
    Retains (mapBlocksListM g items) items := by
  cases items with
  | nil => exact retains_pure []
  | cons s rest =>
    exact retains_bind (· :: rest) (mapBlocksM_retains hg s) fun s' =>
      retains_rebuild (s' :: ·) (mapBlocksListM_retains hg rest)

end

end Stmt

theorem Block.mapExprsM_retains (hf : ∀ e, Retains (f e) e) (b : Block) :
    Retains (b.mapExprsM f) b :=
  retains_rebuild (fun items => Block.mk items b.coord) (Stmt.mapExprsListM_retains hf b.items)

theorem Block.bottomUpM_retains [LawfulMonad m] (hf : ∀ e, Retains (f e) e) (b : Block) :
    Retains (b.bottomUpM f) b :=
  b.mapExprsM_retains (Expr.bottomUpM_retains hf)

theorem Block.mapBlocksM_retains {g : Block → m Block} (hg : ∀ b, Retains (g b) b) (b : Block) :
    Retains (b.mapBlocksM g) b := by
  have hblock := retains_bind (fun items => Block.mk items b.coord)
    (Stmt.mapBlocksListM_retains hg b.items) fun items => hg ⟨items, b.coord⟩
  exact hblock

theorem Item.mapExprsM_retains (hf : ∀ e, Retains (f e) e) (item : Item) :
    Retains (item.mapExprsM f) item := by
  cases item with
  | decl d => exact retains_rebuild Item.decl (d.mapExprsM_retains hf)
  | func g =>
    exact retains_rebuild (fun body => Item.func { g with body }) (g.body.mapExprsM_retains hf)

theorem Item.mapBodyM_retains {g : Block → m Block} (hg : ∀ b, Retains (g b) b) (item : Item) :
    Retains (item.mapBodyM g) item := by
  cases item with
  | decl d => exact retains_pure _
  | func f => exact retains_rebuild (fun body => Item.func { f with body }) (hg f.body)

theorem SourceUnit.mapItemsM_retains [LawfulMonad m] {f : Item → m Item}
    (hf : ∀ item, Retains (f item) item) (u : SourceUnit) : Retains (u.mapItemsM f) u :=
  retains_rebuild (fun items => { u with items }) (retains_mapM fun item _ => hf item)

end Walks

theorem Counted.replace_retains {α : Type} (g : α → Option α) (a : α) :
    Retains (Counted.replace g a) a := by
  intro hcount
  unfold Counted.replace at hcount ⊢
  split at hcount
  · cases hcount
  · rfl

end MathKernel
