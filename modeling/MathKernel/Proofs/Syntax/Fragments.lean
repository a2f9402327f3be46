import MathKernel.Proofs.Syntax.Walks
import MathKernel.Normalize.StaticStorage

/-!
# Fragments of the language

A fragment says which constructs occur in a body: jumps, labels, loops that are not counted, casts,
type spellings, literals, called functions and declarations among the items of a block. A normal
form of bodies is a fragment, and so is what one pass may rely on of those before it. A walk over
a body stays in a fragment if its steps do.

Parameter lists, and the types inside an array declarator, hold expressions that no walk visits;
a fragment says nothing about them.

## Main definitions

* `Fragment` — which constructs may occur
* `Expr.IsIn`, `Decl.IsIn`, `Stmt.IsIn`, `Block.IsIn` — trees of a fragment

## Main results

* `Expr.bottomUpM_isIn`, `Block.mapExprsM_isIn`, `Block.mapBlocksM_isIn`,
  `Stmt.mapScopedListM_isIn` — walks
-/

namespace MathKernel

/-! ### Spelled types -/

mutual

/-- The types of a declaration are spelled by their one word. -/
def Decl.IsSpelled : Decl → Prop
  | ⟨_, _, _, type, _, _⟩ => Declarator.IsSpelled type

/-- The types of a declarator, those of its parameters included, are spelled by their one word. -/
def Declarator.IsSpelled : Declarator Decl → Prop
  | .element t => t.names = [t.scalar.cName]
  | .array item _ _ => Declarator.IsSpelled item
  | .function params result _ => Declarator.AreSpelled params ∧ Declarator.IsSpelled result

/-- The types of parameters are spelled by their one word. -/
def Declarator.AreSpelled : List Decl → Prop
  | [] => True
  | d :: rest => d.IsSpelled ∧ Declarator.AreSpelled rest

end

theorem Decl.isSpelled_iff (d : Decl) : d.IsSpelled ↔ Declarator.IsSpelled d.type := by
  cases d
  rw [Decl.IsSpelled]

/-! ### Fragments -/

/-- Which constructs may occur in a body. -/
structure Fragment where
  gotos : Prop
  labels : Prop
  /-- Loops other than `for`. -/
  openLoops : Prop
  casts : Prop
  /-- Types that are not spelled by their one word. -/
  spellings : Prop
  literal : Literal → Prop
  callee : String → Prop
  /-- Declarations among the items of a block, by name and by whether they are static variables. -/
  item : Option String → Bool → Prop

/-- Whether a node of an expression may occur. -/
def Fragment.node (F : Fragment) : Expr → Prop
  | .literal value _ => F.literal value
  | .call callee _ _ => F.callee callee
  | .cast .. => F.casts
  | _ => True

theorem Fragment.isHeadProperty_node (F : Fragment) : Expr.IsHeadProperty F.node := by
  intro e parts h
  fun_cases Expr.withParts e parts <;> exact h

/-- The expression is one of the fragment. -/
def Expr.IsIn (F : Fragment) (e : Expr) : Prop :=
  e.Everywhere F.node

namespace Expr

variable {F : Fragment} {c : Coord}

theorem isIn_iff {e : Expr} : e.IsIn F ↔ F.node e ∧ ∀ part ∈ e.parts, part.IsIn F :=
  everywhere_iff

@[simp] theorem isIn_id {name : String} : (id name c).IsIn F :=
  everywhere_id.2 trivial

@[simp] theorem isIn_literal {v : Literal} : (literal v c).IsIn F ↔ F.literal v :=
  everywhere_literal

@[simp] theorem isIn_binary {op : BinaryOp} {l r : Expr} :
    (binary op l r c).IsIn F ↔ l.IsIn F ∧ r.IsIn F :=
  everywhere_binary.trans (and_iff_right trivial)

@[simp] theorem isIn_unary {op : UnaryOp} {e : Expr} : (unary op e c).IsIn F ↔ e.IsIn F :=
  everywhere_unary.trans (and_iff_right trivial)

@[simp] theorem isIn_assign {op : AssignOp} {t v : Expr} :
    (assign op t v c).IsIn F ↔ t.IsIn F ∧ v.IsIn F :=
  everywhere_assign.trans (and_iff_right trivial)

@[simp] theorem isIn_ternary {p t e : Expr} :
    (ternary p t e c).IsIn F ↔ p.IsIn F ∧ t.IsIn F ∧ e.IsIn F :=
  everywhere_ternary.trans (and_iff_right trivial)

@[simp] theorem isIn_call {f : String} {args : List Expr} :
    (call f args c).IsIn F ↔ F.callee f ∧ ∀ e ∈ args, e.IsIn F :=
  everywhere_call

@[simp] theorem isIn_cast {type : ScalarType} {e : Expr} :
    (cast type e c).IsIn F ↔ F.casts ∧ e.IsIn F :=
  everywhere_cast

@[simp] theorem isIn_index {a i : Expr} : (index a i c).IsIn F ↔ a.IsIn F ∧ i.IsIn F :=
  everywhere_index.trans (and_iff_right trivial)

@[simp] theorem isIn_initList {items : List Expr} :
    (initList items c).IsIn F ↔ ∀ e ∈ items, e.IsIn F :=
  everywhere_initList.trans (and_iff_right trivial)

@[simp] theorem isIn_comma {items : List Expr} :
    (comma items c).IsIn F ↔ ∀ e ∈ items, e.IsIn F :=
  everywhere_comma.trans (and_iff_right trivial)

end Expr

/-- The declaration is one of the fragment. -/
structure Decl.IsIn (F : Fragment) (d : Decl) : Prop where
  spelled : F.spellings ∨ Declarator.IsSpelled d.type
  exprs : ∀ e ∈ d.rootExprs, e.IsIn F

/-- The initializer clause is one of the fragment. -/
def ForInit.IsIn (F : Fragment) : ForInit → Prop
  | decls ds => ∀ d ∈ ds, d.IsIn F
  | expr e => e.IsIn F

namespace Stmt

/-- Whether the statement is a loop other than `for`. -/
def isOpenLoop : Stmt → Bool
  | whileLoop .. | doWhile .. => true
  | _ => false

/-- Whether the statement may be an item of a block. -/
def IsItemIn (F : Fragment) : Stmt → Prop
  | decl d _ => F.item d.name d.isStaticVariable
  | _ => True

mutual

/-- The statement is one of the fragment. -/
def IsIn (F : Fragment) : Stmt → Prop
  | decl d _ => d.IsIn F
  | block items _ _ => AreIn F items
  | expr e _ => e.IsIn F
  | ifThen p t _ => p.IsIn F ∧ t.IsIn F
  | ifElse p t e _ => p.IsIn F ∧ t.IsIn F ∧ e.IsIn F
  | forLoop init cond next body _ =>
    (∀ i ∈ init, i.IsIn F) ∧ (∀ e ∈ cond, e.IsIn F) ∧ (∀ e ∈ next, e.IsIn F) ∧ body.IsIn F
  | whileLoop p body _ => F.openLoops ∧ p.IsIn F ∧ body.IsIn F
  | doWhile p body _ => F.openLoops ∧ p.IsIn F ∧ body.IsIn F
  | ret value _ => ∀ e ∈ value, e.IsIn F
  | brk _ => True
  | cont _ => True
  | goto _ _ => F.gotos
  | label _ s _ => F.labels ∧ s.IsIn F
  | empty _ => True

/-- The items of a block are of the fragment. -/
def AreIn (F : Fragment) : List Stmt → Prop
  | [] => True
  | s :: rest => s.IsItemIn F ∧ s.IsIn F ∧ AreIn F rest

end

theorem areIn_iff {F : Fragment} {items : List Stmt} :
    AreIn F items ↔ ∀ s ∈ items, s.IsItemIn F ∧ s.IsIn F := by
  induction items with
  | nil => simp [AreIn]
  | cons s rest ih => simp [AreIn, ih, and_assoc]

end Stmt

/-- The block is one of the fragment. -/
def Block.IsIn (F : Fragment) (b : Block) : Prop :=
  Stmt.AreIn F b.items

/-! ### Statements inside a statement -/

namespace Stmt

variable {F : Fragment}

mutual

/-- What is inside a statement of a fragment is of the fragment. -/
theorem IsIn.of_mem {s x : Stmt} (h : s.IsIn F) (hx : x ∈ s.substmts) : x.IsIn F := by
  cases s with
  | block items b c =>
    rcases List.mem_cons.1 hx with rfl | hx
    · exact h
    · exact AreIn.of_mem items h hx
  | ifThen p t c =>
    rcases List.mem_cons.1 hx with rfl | hx
    · exact h
    · exact IsIn.of_mem (s := t) h.2 hx
  | ifElse p t e c =>
    rcases List.mem_cons.1 hx with rfl | hx
    · exact h
    · rcases List.mem_append.1 hx with hx | hx
      · exact IsIn.of_mem (s := t) h.2.1 hx
      · exact IsIn.of_mem (s := e) h.2.2 hx
  | forLoop init cond next body c =>
    rcases List.mem_cons.1 hx with rfl | hx
    · exact h
    · exact IsIn.of_mem (s := body) h.2.2.2 hx
  | whileLoop p body c | doWhile p body c =>
    rcases List.mem_cons.1 hx with rfl | hx
    · exact h
    · exact IsIn.of_mem (s := body) h.2.2 hx
  | label n s c =>
    rcases List.mem_cons.1 hx with rfl | hx
    · exact h
    · exact IsIn.of_mem (s := s) h.2 hx
  | decl | expr | ret | brk | cont | goto | empty =>
    obtain rfl := List.mem_singleton.1 hx
    exact h

theorem AreIn.of_mem (items : List Stmt) {x : Stmt} (h : AreIn F items)
    (hx : x ∈ substmtsList items) : x.IsIn F := by
  cases items with
  | nil => cases hx
  | cons s rest =>
    rcases List.mem_append.1 hx with hx | hx
    · exact IsIn.of_mem (s := s) h.2.1 hx
    · exact AreIn.of_mem rest h.2.2 hx

end

theorem IsIn.ownExprs {s : Stmt} (h : s.IsIn F) {e : Expr} (he : e ∈ s.ownExprs) : e.IsIn F := by
  cases s with
  | decl d c => exact h.exprs e he
  | expr e c =>
    obtain rfl := List.mem_singleton.1 he
    exact h
  | ifThen p t c =>
    obtain rfl := List.mem_singleton.1 he
    exact h.1
  | ifElse p t e c =>
    obtain rfl := List.mem_singleton.1 he
    exact h.1
  | forLoop init cond next body c =>
    obtain ⟨hinit, hcond, hnext, -⟩ := h
    simp only [Stmt.ownExprs, List.mem_append, Option.mem_toList, List.mem_flatMap] at he
    rcases he with (⟨i, hi, he⟩ | he) | he
    · cases i with
      | decls ds =>
        obtain ⟨d, hd, he⟩ := List.mem_flatMap.1 he
        exact (hinit _ hi d hd).exprs e he
      | expr e =>
        obtain rfl := List.mem_singleton.1 he
        exact hinit _ hi
    · exact hcond e he
    · exact hnext e he
  | whileLoop p body c | doWhile p body c =>
    obtain rfl := List.mem_singleton.1 he
    exact h.2.1
  | ret value c => exact h e (Option.mem_toList.1 he)
  | block | brk | cont | goto | label | empty => cases he

end Stmt

/-- Every expression of a body of a fragment may occur in it. -/
theorem Block.IsIn.node {F : Fragment} {b : Block} (h : b.IsIn F) {e : Expr} (he : e ∈ b.exprs) :
    F.node e := by
  obtain ⟨s, hs, he⟩ := List.mem_flatMap.1 he
  obtain ⟨root, hroot, he⟩ := List.mem_flatMap.1 he
  exact (Stmt.AreIn.of_mem b.items h hs).ownExprs hroot e he

/-! ### Walks -/

/-- Statements of one fragment are statements of the other, as far as their expressions are. -/
structure Fragment.Frame (F F' : Fragment) : Prop where
  gotos : F.gotos → F'.gotos
  labels : F.labels → F'.labels
  openLoops : F.openLoops → F'.openLoops
  spellings : F.spellings → F'.spellings
  item : ∀ name isStatic, F.item name isStatic → F'.item name isStatic

/-- A declarator with another array size of the fragment. -/
inductive Declarator.Resized (F : Fragment) : Declarator Decl → Declarator Decl → Prop
  | element (t : ElementType) : Resized F (.element t) (.element t)
  | function (params : List Decl) (result : Declarator Decl) (c : Coord) :
      Resized F (.function params result c) (.function params result c)
  | array (item : Declarator Decl) (size size' : Option Expr) (c : Coord)
      (h : ∀ x ∈ size', x.IsIn F) : Resized F (.array item size c) (.array item size' c)

/-- The declarations have the same name, storage and type up to array sizes. -/
structure Decl.SameHead (d d' : Decl) : Prop where
  name : d'.name = d.name
  isStaticVariable : d'.isStaticVariable = d.isStaticVariable
  isSpelled : Declarator.IsSpelled d.type → Declarator.IsSpelled d'.type

theorem Decl.sameHead_of_resized {F : Fragment} {d : Decl} {type : Declarator Decl}
    (h : Declarator.Resized F d.type type) (init : Option Expr) :
    d.SameHead { d with type, init } := by
  obtain ⟨name, quals, storage, type', init', c⟩ := d
  cases h with
  | element t => exact ⟨rfl, rfl, fun h => h⟩
  | function params result c => exact ⟨rfl, rfl, fun h => h⟩
  | array item size size' c hsize =>
    refine ⟨rfl, rfl, fun h => ?_⟩
    simpa only [Declarator.IsSpelled] using h

theorem Decl.isIn_of_resized {F F' : Fragment} (hframe : F.Frame F') {d : Decl} (hd : d.IsIn F)
    {type : Declarator Decl} (h : Declarator.Resized F' d.type type) {init : Option Expr}
    (hinit : ∀ x ∈ init, x.IsIn F') : ({ d with type, init } : Decl).IsIn F' where
  spelled := hd.spelled.imp hframe.spellings (Decl.sameHead_of_resized h init).isSpelled
  exprs e he := by
    rcases List.mem_append.1 he with he | he
    · obtain ⟨name, quals, storage, type', init', c⟩ := d
      cases h with
      | element t => cases he
      | function params result c => cases he
      | array item size size' c hsize => exact hsize e (Option.mem_toList.1 he)
    · exact hinit e (Option.mem_toList.1 he)

theorem Stmt.IsItemIn.of_sameHead {F F' : Fragment} (hframe : F.Frame F') {d d' : Decl}
    (h : d.SameHead d') {c c' : Coord} (hitem : (Stmt.decl d c).IsItemIn F) :
    (Stmt.decl d' c').IsItemIn F' := by
  change F'.item d'.name d'.isStaticVariable
  rw [h.name, h.isStaticVariable]
  exact hframe.item _ _ hitem

section Walks

variable {m : Type → Type} [Monad m] [EnsuresMonad m] {F F' : Fragment} {f : Expr → m Expr}

/-- A walk leads into a fragment if each step does, once it has done so in the parts. -/
theorem Expr.bottomUpM_isIn [LawfulMonad m]
    (hf : ∀ e, F.node e → (∀ part ∈ e.parts, part.IsIn F') → Ensures (f e) (Expr.IsIn F'))
    {e : Expr} (h : e.IsIn F) : Ensures (e.bottomUpM f) (Expr.IsIn F') :=
  Expr.bottomUpM_ensures F.isHeadProperty_node hf h

theorem mapOptionM_isIn (hf : ∀ e, e.IsIn F → Ensures (f e) (Expr.IsIn F')) {e : Option Expr}
    (h : ∀ x ∈ e, x.IsIn F) : Ensures (mapOptionM f e) fun e' => ∀ x ∈ e', x.IsIn F' := by
  cases e with
  | none => exact ensures_pure (by simp)
  | some e =>
    refine ensures_bind (hf e (h e rfl)) fun e' he' => ensures_pure ?_
    rintro x ⟨⟩
    exact he'

theorem Declarator.mapSizeM_resized (hf : ∀ e, e.IsIn F → Ensures (f e) (Expr.IsIn F'))
    (t : Declarator Decl) (h : ∀ item size c, t = .array item size c → ∀ x ∈ size, x.IsIn F) :
    Ensures (t.mapSizeM f) (Declarator.Resized F' t) := by
  cases t with
  | element t => exact ensures_pure (.element t)
  | function params result c => exact ensures_pure (.function params result c)
  | array item size c =>
    refine ensures_bind (mapOptionM_isIn hf (h item size c rfl)) fun size' hsize => ?_
    exact ensures_pure (.array item size size' c hsize)

theorem Decl.mapExprsM_isIn (hframe : F.Frame F')
    (hf : ∀ e, e.IsIn F → Ensures (f e) (Expr.IsIn F')) {d : Decl} (h : d.IsIn F) :
    Ensures (d.mapExprsM f) fun d' => d'.IsIn F' ∧ d.SameHead d' := by
  have hsize := Declarator.mapSizeM_resized hf d.type fun item size c htype x hx =>
    h.exprs x (List.mem_append_left _ (by simpa [Decl.size?, htype] using hx))
  have hinit := mapOptionM_isIn hf (e := d.init) fun x hx =>
    h.exprs x (List.mem_append_right _ (Option.mem_toList.2 hx))
  refine ensures_bind hsize fun type htype => ensures_bind hinit fun init hinit => ?_
  exact ensures_pure
    ⟨Decl.isIn_of_resized hframe h htype hinit, Decl.sameHead_of_resized htype init⟩

theorem Decl.mapExprsListM_isIn (hframe : F.Frame F')
    (hf : ∀ e, e.IsIn F → Ensures (f e) (Expr.IsIn F')) {ds : List Decl}
    (h : ∀ d ∈ ds, d.IsIn F) :
    Ensures (Decl.mapExprsListM f ds) fun ds' => ∀ d ∈ ds', d.IsIn F' := by
  induction ds with
  | nil => exact ensures_pure (by simp)
  | cons d rest ih =>
    obtain ⟨hd, hrest⟩ := List.forall_mem_cons.1 h
    refine ensures_bind (Decl.mapExprsM_isIn hframe hf hd) fun d' hd' => ?_
    refine ensures_bind (ih hrest) fun rest' hrest' => ensures_pure ?_
    exact List.forall_mem_cons.2 ⟨hd'.1, hrest'⟩

theorem ForInit.mapExprsM_isIn (hframe : F.Frame F')
    (hf : ∀ e, e.IsIn F → Ensures (f e) (Expr.IsIn F')) {init : Option ForInit}
    (h : ∀ i ∈ init, i.IsIn F) :
    Ensures (ForInit.mapExprsM f init) fun init' => ∀ i ∈ init', i.IsIn F' := by
  match init with
  | none => exact ensures_pure (by simp)
  | some (.decls ds) =>
    refine ensures_bind (Decl.mapExprsListM_isIn hframe hf (h _ rfl)) fun ds' hds => ensures_pure ?_
    rintro i ⟨⟩
    exact hds
  | some (.expr e) =>
    refine ensures_bind (hf e (h _ rfl)) fun e' he => ensures_pure ?_
    rintro i ⟨⟩
    exact he

namespace Stmt

mutual

theorem mapExprsM_isIn (hframe : F.Frame F') (hf : ∀ e, e.IsIn F → Ensures (f e) (Expr.IsIn F'))
    (s : Stmt) (h : s.IsIn F) :
    Ensures (s.mapExprsM f) fun s' => s'.IsIn F' ∧ (s.IsItemIn F → s'.IsItemIn F') := by
  cases s with
  | decl d c =>
    refine ensures_bind (Decl.mapExprsM_isIn hframe hf h) fun d' hd => ensures_pure ⟨hd.1, ?_⟩
    exact fun hitem => hitem.of_sameHead hframe hd.2
  | block items b c =>
    refine ensures_bind (mapExprsListM_isIn hframe hf items h) fun items' hitems => ?_
    exact ensures_pure ⟨hitems, fun _ => trivial⟩
  | expr e c =>
    exact ensures_bind (hf e h) fun e' he => ensures_pure ⟨he, fun _ => trivial⟩
  | ifThen p t c =>
    refine ensures_bind (hf p h.1) fun p' hp => ?_
    refine ensures_bind (mapExprsM_isIn hframe hf t h.2) fun t' ht => ?_
    exact ensures_pure ⟨⟨hp, ht.1⟩, fun _ => trivial⟩
  | ifElse p t e c =>
    refine ensures_bind (hf p h.1) fun p' hp => ?_
    refine ensures_bind (mapExprsM_isIn hframe hf t h.2.1) fun t' ht => ?_
    refine ensures_bind (mapExprsM_isIn hframe hf e h.2.2) fun e' he => ?_
    exact ensures_pure ⟨⟨hp, ht.1, he.1⟩, fun _ => trivial⟩
  | forLoop init cond next body c =>
    obtain ⟨hinit, hcond, hnext, hbody⟩ := h
    refine ensures_bind (ForInit.mapExprsM_isIn hframe hf hinit) fun init' hinit' => ?_
    refine ensures_bind (mapOptionM_isIn hf hcond) fun cond' hcond' => ?_
    refine ensures_bind (mapOptionM_isIn hf hnext) fun next' hnext' => ?_
    refine ensures_bind (mapExprsM_isIn hframe hf body hbody) fun body' hbody' => ?_
    exact ensures_pure ⟨⟨hinit', hcond', hnext', hbody'.1⟩, fun _ => trivial⟩
  | whileLoop p body c | doWhile p body c =>
    refine ensures_bind (hf p h.2.1) fun p' hp => ?_
    refine ensures_bind (mapExprsM_isIn hframe hf body h.2.2) fun body' hbody => ?_
    exact ensures_pure ⟨⟨hframe.openLoops h.1, hp, hbody.1⟩, fun _ => trivial⟩
  | ret value c =>
    refine ensures_bind (mapOptionM_isIn hf h) fun value' hvalue => ?_
    exact ensures_pure ⟨hvalue, fun _ => trivial⟩
  | label n s c =>
    refine ensures_bind (mapExprsM_isIn hframe hf s h.2) fun s' hs => ?_
    exact ensures_pure ⟨⟨hframe.labels h.1, hs.1⟩, fun _ => trivial⟩
  | goto l c => exact ensures_pure ⟨hframe.gotos h, fun _ => trivial⟩
  | brk | cont | empty => exact ensures_pure ⟨trivial, fun _ => trivial⟩

theorem mapExprsListM_isIn (hframe : F.Frame F')
    (hf : ∀ e, e.IsIn F → Ensures (f e) (Expr.IsIn F')) (items : List Stmt) (h : AreIn F items) :
    Ensures (mapExprsListM f items) (AreIn F') := by
  cases items with
  | nil => exact ensures_pure trivial
  | cons s rest =>
    refine ensures_bind (mapExprsM_isIn hframe hf s h.2.1) fun s' hs => ?_
    refine ensures_bind (mapExprsListM_isIn hframe hf rest h.2.2) fun rest' hrest => ?_
    exact ensures_pure ⟨hs.2 h.1, hs.1, hrest⟩

end

end Stmt

namespace Block

theorem mapExprsM_isIn (hframe : F.Frame F') (hf : ∀ e, e.IsIn F → Ensures (f e) (Expr.IsIn F'))
    {b : Block} (h : b.IsIn F) : Ensures (b.mapExprsM f) (Block.IsIn F') :=
  ensures_bind (Stmt.mapExprsListM_isIn hframe hf b.items h) fun _ hitems => ensures_pure hitems

/-- A walk over the expressions of a body leads into a fragment if each step does. -/
theorem bottomUpM_isIn [LawfulMonad m] (hframe : F.Frame F')
    (hf : ∀ e, F.node e → (∀ part ∈ e.parts, part.IsIn F') → Ensures (f e) (Expr.IsIn F'))
    {b : Block} (h : b.IsIn F) : Ensures (b.bottomUpM f) (Block.IsIn F') :=
  mapExprsM_isIn hframe (fun _ he => Expr.bottomUpM_isIn hf he) h

end Block

/-! ### Walks over blocks -/

section Blocks

variable {item : Option String → Bool → Prop} {g : Block → m Block}

namespace Stmt

mutual

/-- A walk over blocks may change which declarations are among their items. -/
theorem mapBlocksM_isIn
    (hg : ∀ b : Block, (∀ s ∈ b.items, s.IsItemIn F ∧ s.IsIn { F with item }) →
      Ensures (g b) (Block.IsIn { F with item }))
    (s : Stmt) (h : s.IsIn F) :
    Ensures (s.mapBlocksM g) fun s' =>
      s'.IsIn { F with item } ∧ (s.IsItemIn F → s'.IsItemIn F) := by
  cases s with
  | block items b c =>
    refine ensures_bind (mapBlocksListM_isIn hg items h) fun items' hitems => ?_
    refine ensures_bind (hg ⟨items', b⟩ hitems) fun result hresult => ?_
    exact ensures_pure ⟨hresult, fun _ => trivial⟩
  | ifThen p t c =>
    refine ensures_bind (mapBlocksM_isIn hg t h.2) fun t' ht => ?_
    exact ensures_pure ⟨⟨h.1, ht.1⟩, fun _ => trivial⟩
  | ifElse p t e c =>
    refine ensures_bind (mapBlocksM_isIn hg t h.2.1) fun t' ht => ?_
    refine ensures_bind (mapBlocksM_isIn hg e h.2.2) fun e' he => ?_
    exact ensures_pure ⟨⟨h.1, ht.1, he.1⟩, fun _ => trivial⟩
  | forLoop init cond next body c =>
    obtain ⟨hinit, hcond, hnext, hbody⟩ := h
    refine ensures_bind (mapBlocksM_isIn hg body hbody) fun body' hbody' => ?_
    refine ensures_pure ⟨⟨?_, hcond, hnext, hbody'.1⟩, fun _ => trivial⟩
    intro i hi
    have := hinit i hi
    cases i with
    | decls ds => exact fun d hd => ⟨(this d hd).spelled, (this d hd).exprs⟩
    | expr e => exact this
  | whileLoop p body c | doWhile p body c =>
    refine ensures_bind (mapBlocksM_isIn hg body h.2.2) fun body' hbody => ?_
    exact ensures_pure ⟨⟨h.1, h.2.1, hbody.1⟩, fun _ => trivial⟩
  | label n s c =>
    refine ensures_bind (mapBlocksM_isIn hg s h.2) fun s' hs => ?_
    exact ensures_pure ⟨⟨h.1, hs.1⟩, fun _ => trivial⟩
  | decl d c => exact ensures_pure ⟨⟨h.spelled, h.exprs⟩, fun hitem => hitem⟩
  | expr | ret | brk | cont | goto | empty => exact ensures_pure ⟨h, fun _ => trivial⟩

theorem mapBlocksListM_isIn
    (hg : ∀ b : Block, (∀ s ∈ b.items, s.IsItemIn F ∧ s.IsIn { F with item }) →
      Ensures (g b) (Block.IsIn { F with item }))
    (items : List Stmt) (h : AreIn F items) :
    Ensures (mapBlocksListM g items) fun items' =>
      ∀ s ∈ items', s.IsItemIn F ∧ s.IsIn { F with item } := by
  cases items with
  | nil => exact ensures_pure (by simp)
  | cons s rest =>
    refine ensures_bind (mapBlocksM_isIn hg s h.2.1) fun s' hs => ?_
    refine ensures_bind (mapBlocksListM_isIn hg rest h.2.2) fun rest' hrest => ?_
    exact ensures_pure (List.forall_mem_cons.2 ⟨⟨hs.2 h.1, hs.1⟩, hrest⟩)

end

end Stmt

/-- A walk over the blocks of a body leads into a fragment if each step does. -/
theorem Block.mapBlocksM_isIn
    (hg : ∀ b : Block, (∀ s ∈ b.items, s.IsItemIn F ∧ s.IsIn { F with item }) →
      Ensures (g b) (Block.IsIn { F with item }))
    {b : Block} (h : b.IsIn F) : Ensures (b.mapBlocksM g) (Block.IsIn { F with item }) :=
  ensures_bind (Stmt.mapBlocksListM_isIn hg b.items h) fun _ hitems => hg _ hitems

end Blocks

/-! ### Walks with scopes -/

section Scopes

variable {σ : Type} {declare : Decl → σ → σ} {visit : σ → Expr → m Expr}

theorem Decl.mapScopedListM_isIn (hframe : F.Frame F')
    (hvisit : ∀ scope e, e.IsIn F → Ensures (visit scope e) (Expr.IsIn F')) (scope : σ)
    {ds : List Decl} (h : ∀ d ∈ ds, d.IsIn F) :
    Ensures (Decl.mapScopedListM declare visit scope ds) fun result =>
      ∀ d ∈ result.1, d.IsIn F' := by
  induction ds generalizing scope with
  | nil => exact ensures_pure (by simp)
  | cons d rest ih =>
    obtain ⟨hd, hrest⟩ := List.forall_mem_cons.1 h
    refine ensures_bind (Decl.mapExprsM_isIn hframe (hvisit scope) hd) fun d' hd' => ?_
    refine ensures_bind (ih (declare d scope) hrest) fun result hresult => ensures_pure ?_
    exact List.forall_mem_cons.2 ⟨hd'.1, hresult⟩

namespace Stmt

mutual

theorem mapScopedM_isIn (hframe : F.Frame F')
    (hvisit : ∀ scope e, e.IsIn F → Ensures (visit scope e) (Expr.IsIn F')) (scope : σ)
    (s : Stmt) (h : s.IsIn F) :
    Ensures (s.mapScopedM declare visit scope) fun result =>
      result.1.IsIn F' ∧ (s.IsItemIn F → result.1.IsItemIn F') := by
  cases s with
  | decl d c =>
    refine ensures_bind (Decl.mapExprsM_isIn hframe (hvisit scope) h) fun d' hd => ?_
    exact ensures_pure ⟨hd.1, fun hitem => hitem.of_sameHead hframe hd.2⟩
  | block items b c =>
    refine ensures_bind (mapScopedListM_isIn hframe hvisit scope items h) fun result hitems => ?_
    exact ensures_pure ⟨hitems, fun _ => trivial⟩
  | expr e c =>
    exact ensures_bind (hvisit scope e h) fun e' he => ensures_pure ⟨he, fun _ => trivial⟩
  | ifThen p t c =>
    refine ensures_bind (hvisit scope p h.1) fun p' hp => ?_
    refine ensures_bind (mapScopedM_isIn hframe hvisit scope t h.2) fun t' ht => ?_
    exact ensures_pure ⟨⟨hp, ht.1⟩, fun _ => trivial⟩
  | ifElse p t e c =>
    refine ensures_bind (hvisit scope p h.1) fun p' hp => ?_
    refine ensures_bind (mapScopedM_isIn hframe hvisit scope t h.2.1) fun t' ht => ?_
    refine ensures_bind (mapScopedM_isIn hframe hvisit t'.2 e h.2.2) fun e' he => ?_
    exact ensures_pure ⟨⟨hp, ht.1, he.1⟩, fun _ => trivial⟩
  | forLoop init cond next body c =>
    obtain ⟨hinit, hcond, hnext, hbody⟩ := h
    -- Only declarations change the scope that the other parts are visited in.
    match init with
    | none =>
      refine ensures_bind (mapOptionM_isIn (hvisit scope) hcond) fun cond' hcond' => ?_
      refine ensures_bind (mapOptionM_isIn (hvisit scope) hnext) fun next' hnext' => ?_
      refine ensures_bind (mapScopedM_isIn hframe hvisit scope body hbody) fun body' hbody' => ?_
      exact ensures_pure ⟨⟨by simp, hcond', hnext', hbody'.1⟩, fun _ => trivial⟩
    | some (.decls ds) =>
      refine ensures_bind (Decl.mapScopedListM_isIn hframe hvisit scope (hinit _ rfl))
        fun inner hds => ?_
      refine ensures_bind (mapOptionM_isIn (hvisit inner.2) hcond) fun cond' hcond' => ?_
      refine ensures_bind (mapOptionM_isIn (hvisit inner.2) hnext) fun next' hnext' => ?_
      refine ensures_bind (mapScopedM_isIn hframe hvisit inner.2 body hbody) fun body' hbody' => ?_
      refine ensures_pure ⟨⟨?_, hcond', hnext', hbody'.1⟩, fun _ => trivial⟩
      rintro i ⟨⟩
      exact hds
    | some (.expr e) =>
      refine ensures_bind (hvisit scope e (hinit _ rfl)) fun e' he => ?_
      refine ensures_bind (mapOptionM_isIn (hvisit scope) hcond) fun cond' hcond' => ?_
      refine ensures_bind (mapOptionM_isIn (hvisit scope) hnext) fun next' hnext' => ?_
      refine ensures_bind (mapScopedM_isIn hframe hvisit scope body hbody) fun body' hbody' => ?_
      refine ensures_pure ⟨⟨?_, hcond', hnext', hbody'.1⟩, fun _ => trivial⟩
      rintro i ⟨⟩
      exact he
  | whileLoop p body c | doWhile p body c =>
    refine ensures_bind (hvisit scope p h.2.1) fun p' hp => ?_
    refine ensures_bind (mapScopedM_isIn hframe hvisit scope body h.2.2) fun body' hbody => ?_
    exact ensures_pure ⟨⟨hframe.openLoops h.1, hp, hbody.1⟩, fun _ => trivial⟩
  | ret value c =>
    refine ensures_bind (mapOptionM_isIn (hvisit scope) h) fun value' hvalue => ?_
    exact ensures_pure ⟨hvalue, fun _ => trivial⟩
  | label n s c =>
    refine ensures_bind (mapScopedM_isIn hframe hvisit scope s h.2) fun s' hs => ?_
    exact ensures_pure ⟨⟨hframe.labels h.1, hs.1⟩, fun _ => trivial⟩
  | goto l c => exact ensures_pure ⟨hframe.gotos h, fun _ => trivial⟩
  | brk | cont | empty => exact ensures_pure ⟨trivial, fun _ => trivial⟩

theorem mapScopedListM_isIn (hframe : F.Frame F')
    (hvisit : ∀ scope e, e.IsIn F → Ensures (visit scope e) (Expr.IsIn F')) (scope : σ)
    (items : List Stmt) (h : AreIn F items) :
    Ensures (mapScopedListM declare visit scope items) fun result => AreIn F' result.1 := by
  cases items with
  | nil => exact ensures_pure trivial
  | cons s rest =>
    refine ensures_bind (mapScopedM_isIn hframe hvisit scope s h.2.1) fun s' hs => ?_
    refine ensures_bind (mapScopedListM_isIn hframe hvisit s'.2 rest h.2.2) fun rest' hrest => ?_
    exact ensures_pure ⟨hs.2 h.1, hs.1, hrest⟩

end

end Stmt

end Scopes

end Walks

end MathKernel
