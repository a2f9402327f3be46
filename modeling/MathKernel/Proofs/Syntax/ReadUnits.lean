import MathKernel.Proofs.Normalize.Jumps
import MathKernel.Proofs.Syntax.Walks
import MathKernel.Syntax.Dump

/-!
# What every unit read from a dump satisfies

The readers check a declaration wherever it stands: in the file, in a body, in the clause of a loop
and in a list of parameters, which may be nested in a declarator to any depth. One path checks
less than the others: the qualifiers of a parameter that is a bare type are taken as they are.

## Main definitions

* `Declarator.chain`, `Declarator.paramDecls` — the declarators down to the element type, and the
  parameters at any depth
* `Declarator.IsSupported` — what is checked of one declarator
* `SourceUnit.ownDecls`, `SourceUnit.paramDecls`, `SourceUnit.declarators` — all that a unit
  declares

## Main results

* `Declarator.ofJson_ensures` — the readers of declarators and declarations, by levels of the dump
* `SourceUnit.supported_of_ofJson` — units
-/

namespace MathKernel

/-! ### The parts of declarations -/

/-- The declarator and those inside it, down to its element type. -/
def Declarator.chain {δ : Type} : Declarator δ → List (Declarator δ)
  | .element t => [.element t]
  | .function params result c => .function params result c :: result.chain
  | .array item size c => .array item size c :: item.chain

mutual

/-- The parameters declared in a declarator, at any depth. -/
def Declarator.paramDecls : Declarator Decl → List Decl
  | .element _ => []
  | .array item _ _ => Declarator.paramDecls item
  | .function params result _ => Decl.withParamsList params ++ Declarator.paramDecls result

/-- A declaration and the parameters declared in it. -/
def Decl.withParams : Decl → List Decl
  | ⟨name, quals, storage, type, init, c⟩ =>
    ⟨name, quals, storage, type, init, c⟩ :: Declarator.paramDecls type

/-- The declarations of a list and the parameters declared in them. -/
def Decl.withParamsList : List Decl → List Decl
  | [] => []
  | d :: rest => d.withParams ++ Decl.withParamsList rest

end

theorem Decl.withParams_eq (d : Decl) : d.withParams = d :: d.type.paramDecls := by
  cases d
  rw [Decl.withParams]

theorem Decl.mem_withParamsList {p : Decl} {ds : List Decl} :
    p ∈ Decl.withParamsList ds ↔ ∃ d ∈ ds, p ∈ d.withParams := by
  induction ds with
  | nil => simp [Decl.withParamsList]
  | cons d rest ih => simp [Decl.withParamsList, ih]

/-- The declarations of a file-level item and of the body it has. -/
def Item.ownDecls : Item → List Decl
  | .decl d => [d]
  | .func f => f.decl :: f.body.decls

namespace SourceUnit

/-- The declarations of the file, of bodies and of the clauses of loops. -/
def ownDecls (u : SourceUnit) : List Decl :=
  u.items.flatMap Item.ownDecls

/-- The parameters declared in the unit, at any depth. -/
def paramDecls (u : SourceUnit) : List Decl :=
  u.ownDecls.flatMap fun d => d.type.paramDecls

/-- The declarators of the unit, at any depth. -/
def declarators (u : SourceUnit) : List (Declarator Decl) :=
  (u.ownDecls ++ u.paramDecls).flatMap fun d => d.type.chain

end SourceUnit

/-! ### What is checked -/

/-- There is no qualifier but `const`. -/
def OnlyConst (quals : List String) : Prop :=
  ∀ q ∈ quals, q = "const"

instance (quals : List String) : Decidable (OnlyConst quals) :=
  inferInstanceAs (Decidable (∀ q ∈ quals, q = "const"))

/-- What is checked of one declarator: the words of an element type name its scalar, arrays have no
arrays as items, and a function has parameters or none, but not only an unnamed `void`. -/
def Declarator.IsSupported : Declarator Decl → Prop
  | .element t => OnlyConst t.quals ∧ ScalarType.ofNames? t.names = some t.scalar
  | .function params _ _ => isVoidParams params = false
  | .array (.array ..) _ _ => False
  | .array _ _ _ => True

/-- A declaration as a bare type gives it. -/
def Decl.IsBareType (d : Decl) : Prop :=
  d.name = none ∧ d.storage = [] ∧ d.init = none

/-- What is checked of a parameter. -/
def Decl.IsCheckedParam (d : Decl) : Prop :=
  (¬ d.IsBareType → OnlyConst d.quals) ∧ ∀ t ∈ d.type.chain, t.IsSupported

/-- What is checked of a declarator with all that is in it. -/
structure Declarator.IsChecked (t : Declarator Decl) : Prop where
  chain : ∀ part ∈ t.chain, part.IsSupported
  params : ∀ p ∈ t.paramDecls, p.IsCheckedParam

/-- What is checked of a declaration that is no parameter. -/
structure Decl.IsChecked (d : Decl) : Prop where
  quals : OnlyConst d.quals
  type : d.type.IsChecked

namespace Declarator

theorem isChecked_element {t : ElementType} (hquals : OnlyConst t.quals)
    (hnames : ScalarType.ofNames? t.names = some t.scalar) :
    (Declarator.element t : Declarator Decl).IsChecked where
  chain := by
    intro part hpart
    rw [List.mem_singleton.1 hpart]
    exact ⟨hquals, hnames⟩
  params := by simp [paramDecls]

theorem isChecked_array {item : Declarator Decl} {size : Option Expr} {c : Coord}
    (hitem : item.IsChecked) (h : (Declarator.array item size c).IsSupported) :
    (Declarator.array item size c).IsChecked where
  chain := List.forall_mem_cons.2 ⟨h, hitem.chain⟩
  params := by
    rw [paramDecls]
    exact hitem.params

theorem isChecked_function {params : List Decl} {result : Declarator Decl} {c : Coord}
    (hvoid : isVoidParams params = false) (hresult : result.IsChecked)
    (hparams : ∀ d ∈ params, d.IsCheckedParam ∧ d.type.IsChecked) :
    (Declarator.function params result c).IsChecked where
  chain := List.forall_mem_cons.2 ⟨hvoid, hresult.chain⟩
  params := by
    intro p hp
    rw [paramDecls, List.mem_append, Decl.mem_withParamsList] at hp
    rcases hp with ⟨d, hd, hp⟩ | hp
    · rw [Decl.withParams_eq] at hp
      rcases List.mem_cons.1 hp with rfl | hp
      · exact (hparams _ hd).1
      · exact (hparams d hd).2.params p hp
    · exact hresult.params p hp

end Declarator

/-! ### The readers -/

/-- A computation of which nothing is asked. -/
theorem ensures_true {ε α : Type} (x : Except ε α) : Ensures x fun _ => True :=
  fun _ _ => trivial

theorem ensures_error {ε α : Type} {P : α → Prop} (e : ε) : Ensures (Except.error e) P :=
  fun _ h => nomatch h

theorem ensures_forall_mapM {ε α β : Type} {f : α → Except ε β} {P : β → Prop} (items : List α)
    (h : ∀ a, Ensures (f a) P) : Ensures (items.mapM f) fun results => ∀ b ∈ results, P b := by
  intro results hresults
  exact forall_of_forall₂ (ensures_mapM items (fun a _ => h a) results hresults)
    fun a _ b hb => hb

namespace Node

theorem qualifiers_ensures (n : Node) : Ensures n.qualifiers OnlyConst := by
  refine ensures_bind (ensures_true _) fun quals _ => ?_
  cases hfind : quals.find? (· != "const") with
  | some q => exact ensures_error _
  | none =>
    refine ensures_pure fun q hq => ?_
    have := List.find?_eq_none.1 hfind q hq
    simpa using this

theorem elementType_ensures (n : Node) :
    Ensures n.elementType fun t =>
      OnlyConst t.quals ∧ ScalarType.ofNames? t.names = some t.scalar := by
  refine ensures_bind (ensures_true _) fun _ _ => ?_
  refine ensures_bind n.qualifiers_ensures fun quals hquals => ?_
  refine ensures_bind (ensures_true _) fun _ _ => ensures_bind (ensures_true _) fun words _ => ?_
  refine ensures_bind (ensures_true _) fun names _ => ?_
  cases hscalar : ScalarType.ofNames? names with
  | none => exact ensures_error _
  | some scalar =>
    refine ensures_bind (ensures_true _) fun declName _ => ?_
    exact ensures_pure ⟨hquals, hscalar⟩

end Node

theorem isVoidParams_ite (params : List Decl) :
    isVoidParams (if isVoidParams params then [] else params) = false := by
  cases h : isVoidParams params with
  | true => rfl
  | false => simpa using h

mutual

/-- A declarator that is read has been checked with all that is in it. The induction is on the
levels of the dump. -/
theorem Declarator.ofJson_ensures :
    ∀ (fuel : Nat) (j : Json), Ensures (Declarator.ofJson fuel j) Declarator.IsChecked
  | 0, j => ensures_error _
  | fuel + 1, j => by
    refine ensures_bind (ensures_true _) fun n _ => ?_
    have hinner (j : Json) := Declarator.ofJson_ensures fuel j
    cases n.tag with
    | typeDecl =>
      refine ensures_bind n.elementType_ensures fun t ht => ?_
      exact ensures_pure (Declarator.isChecked_element ht.1 ht.2)
    | funcDecl =>
      -- The result is read after the parameters, whether there is a list of these or not.
      have hrest (params : List Decl) (hvoid : isVoidParams params = false)
          (hparams : ∀ d ∈ params, d.IsCheckedParam ∧ d.type.IsChecked) :
          Ensures (do return .function params (← Declarator.ofJson fuel (← n.field "type")) n.coord)
            Declarator.IsChecked := by
        refine ensures_bind (ensures_true _) fun type _ => ?_
        refine ensures_bind (hinner type) fun result hresult => ?_
        exact ensures_pure (Declarator.isChecked_function hvoid hresult hparams)
      cases n.field? "args" with
      | none => exact hrest [] rfl (by simp)
      | some args =>
        refine ensures_bind (ensures_true _) fun list _ => ?_
        refine ensures_bind (ensures_true _) fun items _ => ?_
        have hitems := ensures_forall_mapM items fun item => ensures_bind
          (ensures_true (Node.ofJson [.decl, .typename] item)) fun n _ =>
            Decl.ofParam_ensures fuel n
        refine ensures_bind hitems fun params hparams => hrest _ (isVoidParams_ite params) ?_
        split
        · simp
        · exact hparams
    | arrayDecl =>
      have hrest (size : Option Expr) : Ensures (do
          match ← Declarator.ofJson fuel (← n.field "type") with
          | .array .. => n.unsupported "multi-dimensional arrays"
          | item => return .array item size n.coord) Declarator.IsChecked := by
        refine ensures_bind (ensures_true _) fun type _ => ?_
        refine ensures_bind (hinner type) fun item hitem => ?_
        cases item with
        | array => exact ensures_error _
        | element | function => exact ensures_pure (Declarator.isChecked_array hitem trivial)
      refine ensures_bind (ensures_true _) fun _ _ => ?_
      cases n.field? "dim" with
      | none => exact hrest none
      | some e =>
        refine ensures_bind (ensures_true _) fun n _ => ensures_bind (ensures_true _) fun e _ => ?_
        exact hrest (some e)
    | _ => exact ensures_error _

/-- A parameter that is read has been checked, but for the qualifiers of a bare type. -/
theorem Decl.ofParam_ensures :
    ∀ (fuel : Nat) (n : Node),
      Ensures (Decl.ofParam fuel n) fun d => d.IsCheckedParam ∧ d.type.IsChecked
  | 0, n => ensures_error _
  | fuel + 1, n => by
    unfold Decl.ofParam
    split
    · intro d hd
      have hchecked := Decl.ofNode_ensures fuel n d hd
      exact ⟨⟨fun _ => hchecked.quals, hchecked.type.chain⟩, hchecked.type⟩
    · refine ensures_bind (ensures_true _) fun _ _ => ensures_bind (ensures_true _) fun j _ => ?_
      refine ensures_bind (Declarator.ofJson_ensures fuel j) fun type htype => ?_
      refine ensures_bind (ensures_true _) fun quals _ => ?_
      exact ensures_pure ⟨⟨fun hbare => absurd ⟨rfl, rfl, rfl⟩ hbare, htype.chain⟩, htype⟩

/-- A declaration that is read has been checked with all that is in it. -/
theorem Decl.ofNode_ensures :
    ∀ (fuel : Nat) (n : Node), Ensures (Decl.ofNode fuel n) Decl.IsChecked
  | 0, n => ensures_error _
  | fuel + 1, n => by
    refine ensures_bind (ensures_true _) fun _ _ => ensures_bind (ensures_true _) fun _ _ => ?_
    refine ensures_bind (ensures_true _) fun _ _ => ?_
    refine ensures_bind n.qualifiers_ensures fun quals hquals => ?_
    refine ensures_bind (ensures_true _) fun storage _ => ?_
    refine ensures_bind (ensures_true _) fun j _ => ?_
    refine ensures_bind (Declarator.ofJson_ensures fuel j) fun type htype => ?_
    have hrest (init : Option Expr) : Ensures (do
        return { name := ← n.string? "name", quals, storage, type, init, coord := n.coord })
          Decl.IsChecked :=
      ensures_bind (ensures_true _) fun name _ => ensures_pure ⟨hquals, htype⟩
    cases n.field? "init" with
    | none => exact hrest none
    | some e =>
      refine ensures_bind (ensures_true _) fun n _ => ensures_bind (ensures_true _) fun e _ => ?_
      exact hrest (some e)

end

theorem Decl.ofJson_ensures (fuel : Nat) (j : Json) :
    Ensures (Decl.ofJson fuel j) Decl.IsChecked :=
  ensures_bind (ensures_true _) fun n _ => Decl.ofNode_ensures fuel n

theorem ForInit.ofJson_ensures (fuel : Nat) (j : Json) :
    Ensures (ForInit.ofJson fuel j) fun init => ∀ d ∈ init.declList, d.IsChecked := by
  refine ensures_bind (ensures_true _) fun n _ => ?_
  split
  · refine ensures_bind (ensures_true _) fun items _ => ?_
    refine ensures_bind (ensures_forall_mapM items (Decl.ofJson_ensures fuel)) fun ds hds => ?_
    exact ensures_pure hds
  · exact ensures_bind (ensures_true _) fun e _ => ensures_pure (by simp [ForInit.declList])

/-- The declarations of a statement and of all inside it have been checked. -/
def Stmt.DeclsChecked (s : Stmt) : Prop :=
  ∀ sub ∈ s.substmts, ∀ d ∈ sub.ownDecls, d.IsChecked

namespace Stmt

theorem declsChecked_block {items : List Stmt} (h : ∀ s ∈ items, s.DeclsChecked) (b c : Coord) :
    (block items b c).DeclsChecked := by
  refine List.forall_mem_cons.2 ⟨by simp [ownDecls], fun sub hsub => ?_⟩
  obtain ⟨s, hs, hsub⟩ := mem_substmtsList.1 hsub
  exact h s hs sub hsub

theorem declsChecked_expr (e : Expr) (c : Coord) : (expr e c).DeclsChecked := by
  simp [DeclsChecked, substmts, ownDecls]

theorem declsChecked_empty (c : Coord) : (empty c).DeclsChecked := by
  simp [DeclsChecked, substmts, ownDecls]

/-- A part of a statement that may be absent. -/
theorem ensures_childOrEmpty {n : Node} {read : Json → Except DumpError Stmt}
    (h : ∀ j, Ensures (read j) DeclsChecked) (field : String) :
    Ensures (match n.field? field with
      | none => pure (empty none)
      | some j => read j) DeclsChecked := by
  cases n.field? field with
  | none => exact ensures_pure (declsChecked_empty none)
  | some j => exact h j

/-- The declarations of a statement that is read have been checked. -/
theorem ofNode_ensures (fuel : Nat) (n : Node) : Ensures (ofNode fuel n) DeclsChecked := by
  induction fuel generalizing n with
  | zero => exact ensures_error _
  | succ fuel ih =>
    have hchild (j : Json) :
        Ensures (do ofNode fuel (← Node.ofJson Tag.stmts j)) DeclsChecked :=
      ensures_bind (ensures_true _) fun n _ => ih n
    have hpart := ensures_childOrEmpty hchild (n := n)
    have hexpr : Ensures (do return expr (← Expr.ofNode (fuel + 1) n) n.coord) DeclsChecked :=
      ensures_bind (ensures_true _) fun e _ => ensures_pure (declsChecked_expr e _)
    unfold ofNode
    cases htag : n.tag with
    | decl =>
      refine ensures_bind (Decl.ofNode_ensures (fuel + 1) n) fun d hd => ensures_pure ?_
      simpa [DeclsChecked, substmts, ownDecls] using hd
    | compound =>
      refine ensures_bind (ensures_true _) fun items _ => ?_
      refine ensures_bind (ensures_forall_mapM items hchild) fun stmts hstmts => ?_
      exact ensures_pure (declsChecked_block hstmts _ _)
    | ret =>
      refine ensures_bind (ensures_true _) fun value _ => ensures_pure ?_
      simp [DeclsChecked, substmts, ownDecls]
    | ifStmt =>
      refine ensures_bind (ensures_true _) fun p _ => ?_
      refine ensures_bind (hpart "iftrue") fun onTrue htrue => ?_
      cases n.field? "iffalse" with
      | none => exact ensures_pure (List.forall_mem_cons.2 ⟨by simp [ownDecls], htrue⟩)
      | some j =>
        refine ensures_bind (hchild j) fun onFalse hfalse => ensures_pure ?_
        refine List.forall_mem_cons.2 ⟨by simp [ownDecls], fun sub hsub => ?_⟩
        exact (List.mem_append.1 hsub).elim (htrue sub) (hfalse sub)
    | forStmt =>
      -- With an initializer clause or without one, the rest of the loop is read alike.
      have hrest (init : Option ForInit)
          (hinit : ∀ d ∈ init.toList.flatMap ForInit.declList, d.IsChecked)
          {body : Except DumpError Stmt} (hbody : Ensures body DeclsChecked) : Ensures (do
            let p ← Expr.ofField? fuel n "cond"
            let next ← Expr.ofField? fuel n "next"
            return forLoop init p next (← body) n.coord) DeclsChecked := by
        refine ensures_bind (ensures_true _) fun p _ => ?_
        refine ensures_bind (ensures_true _) fun next _ => ?_
        refine ensures_bind hbody fun body hbody => ensures_pure ?_
        exact List.forall_mem_cons.2 ⟨hinit, hbody⟩
      cases n.field? "init" with
      | none => exact hrest none (by simp) (hpart "stmt")
      | some j =>
        refine ensures_bind (ForInit.ofJson_ensures fuel j) fun init hinit => ?_
        exact hrest (some init) (by simpa using hinit) (hpart "stmt")
    | whileStmt | doWhile =>
      refine ensures_bind (ensures_true _) fun p _ => ?_
      refine ensures_bind (hpart "stmt") fun body hbody => ensures_pure ?_
      exact List.forall_mem_cons.2 ⟨by simp [ownDecls], hbody⟩
    | label =>
      refine ensures_bind (ensures_true _) fun name _ => ?_
      refine ensures_bind (hpart "stmt") fun body hbody => ensures_pure ?_
      exact List.forall_mem_cons.2 ⟨by simp [ownDecls], hbody⟩
    | brk | cont | emptyStatement =>
      exact ensures_pure (by simp [DeclsChecked, substmts, ownDecls])
    | goto =>
      refine ensures_bind (ensures_true _) fun name _ => ensures_pure ?_
      simp [DeclsChecked, substmts, ownDecls]
    | _ => exact hexpr

end Stmt

theorem Block.ofJson_ensures (fuel : Nat) (j : Json) :
    Ensures (Block.ofJson fuel j) fun b => ∀ d ∈ b.decls, d.IsChecked := by
  refine ensures_bind (ensures_true _) fun n _ => ensures_bind (ensures_true _) fun items _ => ?_
  have hitems := ensures_forall_mapM items fun item => ensures_bind
    (ensures_true (Node.ofJson Tag.stmts item)) fun n _ => Stmt.ofNode_ensures fuel n
  refine ensures_bind hitems fun stmts hstmts => ensures_pure fun d hd => ?_
  obtain ⟨sub, hsub, hd⟩ := List.mem_flatMap.1 hd
  obtain ⟨s, hs, hsub⟩ := Stmt.mem_substmtsList.1 hsub
  exact hstmts s hs sub hsub d hd

/-- What is checked of a file-level item. -/
structure Item.IsChecked (item : Item) : Prop where
  decls : ∀ d ∈ item.ownDecls, d.IsChecked
  function : ∀ f, item = .func f → f.decl.isFunction = true

theorem FuncDef.ofNode_ensures (fuel : Nat) (n : Node) :
    Ensures (FuncDef.ofNode fuel n) fun f => (Item.func f).IsChecked := by
  refine ensures_bind (ensures_true _) fun _ _ => ensures_bind (ensures_true _) fun j _ => ?_
  refine ensures_bind (Decl.ofJson_ensures fuel j) fun d hd => ?_
  cases hfunction : d.isFunction with
  | false => exact ensures_error _
  | true =>
    refine ensures_bind (ensures_true _) fun j _ => ?_
    refine ensures_bind (Block.ofJson_ensures fuel j) fun body hbody => ensures_pure ?_
    refine ⟨List.forall_mem_cons.2 ⟨hd, hbody⟩, ?_⟩
    rintro f ⟨⟩
    exact hfunction

theorem Item.ofJson_ensures (fuel : Nat) (j : Json) :
    Ensures (Item.ofJson fuel j) Item.IsChecked := by
  refine ensures_bind (ensures_true _) fun n _ => ?_
  split
  · refine ensures_bind (Decl.ofNode_ensures fuel n) fun d hd => ensures_pure ?_
    exact ⟨by simpa [Item.ownDecls] using hd, fun f hf => nomatch hf⟩
  · exact ensures_bind (FuncDef.ofNode_ensures fuel n) fun f hf => ensures_pure hf

/-- In a unit that is read no declaration of the file, of a body or of a loop has a qualifier but
`const`, and no parameter that is more than a bare type. All declarators are supported ones, and
the functions that are defined are functions. -/
theorem SourceUnit.supported_of_ofJson {j : Json} {u : SourceUnit}
    (h : SourceUnit.ofJson j = .ok u) :
    (∀ d ∈ u.ownDecls, OnlyConst d.quals) ∧
      (∀ p ∈ u.paramDecls, ¬ p.IsBareType → OnlyConst p.quals) ∧
      (∀ t ∈ u.declarators, t.IsSupported) ∧ ∀ f ∈ u.funcs, f.decl.isFunction = true := by
  have hunit : Ensures (SourceUnit.ofJson j) fun u => ∀ item ∈ u.items, item.IsChecked := by
    refine ensures_bind (ensures_true _) fun n _ => ensures_bind (ensures_true _) fun items _ => ?_
    refine ensures_bind (ensures_forall_mapM items (Item.ofJson_ensures _)) fun items hitems => ?_
    exact ensures_pure hitems
  have hitems := hunit u h
  have hown (d : Decl) (hd : d ∈ u.ownDecls) : d.IsChecked := by
    obtain ⟨item, hitem, hd⟩ := List.mem_flatMap.1 hd
    exact (hitems item hitem).decls d hd
  have hparam (p : Decl) (hp : p ∈ u.paramDecls) : p.IsCheckedParam := by
    obtain ⟨d, hd, hp⟩ := List.mem_flatMap.1 hp
    exact (hown d hd).type.params p hp
  refine ⟨fun d hd => (hown d hd).quals, fun p hp => (hparam p hp).1, fun t ht => ?_,
    fun f hf => ?_⟩
  · obtain ⟨d, hd, ht⟩ := List.mem_flatMap.1 ht
    rcases List.mem_append.1 hd with hd | hd
    · exact (hown d hd).type.chain t ht
    · exact (hparam d hd).2 t ht
  · rw [SourceUnit.funcs, List.mem_filterMap] at hf
    obtain ⟨item, hitem, hf⟩ := hf
    cases item with
    | decl d => cases hf
    | func g =>
      obtain rfl := Option.some.inj hf
      exact (hitems _ hitem).function g rfl

/-! ### Two dumps -/

/-- A node of a dump. -/
def Tag.node (tag : Tag) (members : List (String × Json)) : Json :=
  .object (("_nodetype", .string tag.name) :: members)

/-- The dump of a type of one word. -/
def wordNode (word : String) : Json :=
  Tag.typeDecl.node [("type", Tag.identifierType.node [("names", .array [.string word])])]

/-- The dump of a declaration. -/
def declNode (name : String) (type : Json) (more : List (String × Json)) : Json :=
  Tag.decl.node (("name", .string name) :: ("type", type) :: more)

/-- The dump of a function type. -/
def functionNode (result : Json) (params : List Json) : Json :=
  Tag.funcDecl.node [("args", Tag.paramList.node [("params", .array params)]), ("type", result)]

/-- `float f(const float x, int); int g(void) { for (int i; ; ) ; }` -/
def loopDump : Json :=
  Tag.fileAST.node [("ext", .array [
    declNode "f" (functionNode (wordNode "float")
      [declNode "x" (wordNode "float") [("quals", .array [.string "const"])],
        Tag.typename.node [("type", wordNode "int")]]) [],
    Tag.funcDef.node [
      ("decl", declNode "g" (functionNode (wordNode "int")
        [Tag.typename.node [("type", wordNode "void")]]) []),
      ("body", Tag.compound.node [("block_items", .array [Tag.forStmt.node [
        ("init", Tag.declList.node [("decls", .array [declNode "i" (wordNode "int") []])])]])])]])]

theorem supported_loopDump : ∃ u, SourceUnit.ofJson loopDump = .ok u ∧
    u.ownDecls.map Decl.name = [some "f", some "g", some "i"] ∧
    u.paramDecls.map Decl.name = [some "x", none] ∧
    (∀ d ∈ u.ownDecls, OnlyConst d.quals) ∧
    (∀ p ∈ u.paramDecls, ¬ p.IsBareType → OnlyConst p.quals) ∧
    (∀ t ∈ u.declarators, t.IsSupported) ∧ ∀ f ∈ u.funcs, f.decl.isFunction = true := by
  obtain ⟨u, hu, hown, hparams⟩ : ∃ u, SourceUnit.ofJson loopDump = .ok u ∧
      u.ownDecls.map Decl.name = [some "f", some "g", some "i"] ∧
      u.paramDecls.map Decl.name = [some "x", none] := ⟨_, rfl, rfl, rfl⟩
  exact ⟨u, hu, hown, hparams, SourceUnit.supported_of_ofJson hu⟩

/-- `float f(volatile float);` with the qualifier on the bare type. -/
def volatileParam : Json :=
  Tag.fileAST.node [("ext", .array [
    declNode "f" (functionNode (wordNode "float")
      [Tag.typename.node [("quals", .array [.string "volatile"]), ("type", wordNode "float")]])
      []])]

theorem not_onlyConst_volatileParam :
    ∃ u, SourceUnit.ofJson volatileParam = .ok u ∧ ∃ p ∈ u.paramDecls, ¬ OnlyConst p.quals :=
  ⟨_, rfl, _, List.mem_singleton.2 rfl, by decide⟩

end MathKernel
