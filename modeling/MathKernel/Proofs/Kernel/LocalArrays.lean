import MathKernel.Proofs.Kernel.EmittedExpressions
import MathKernel.Proofs.Kernel.RecordedLiterals
import MathKernel.Proofs.Semantics.Effects
import MathKernel.Proofs.Semantics.Execution
import MathKernel.Proofs.Syntax.References
import MathKernel.Proofs.Syntax.Unambiguity
import MathKernel.Proofs.Syntax.Walks

/-!
# Code of local arrays

A local array with an initializer list is written as a declaration and an assignment for each item.
Elements without an item are left as the declaration makes them: without a value in shader code, and
as the number zero in scalar code. By the rules of C they are zero in the type of the elements. An
item with commas is written after `=` as it stands, so that its first operand is assigned and not
its last one.

## Main definitions

* `Expr.itemCode`, `itemCodes` — what the lines of items are the code of
* `Family.newElement?` — what an element holds after the declaration
* `Family.runArray` — the run of the code of an array
* `Memory.element?` — what an element holds

## Main results

* `FuncDef.exists_emitLocal` — the code of a function has the lines of each local array
* `emitList_itemCodes` — the lines of items are the code of assignments
* `Family.runArray_eq_runInit` — where the code does what C does
* `FuncDef.emit_localArray` — what the elements of local arrays hold
-/

namespace MathKernel

/-! ### Lines in the code of a function -/

/-- The lines stand in the text, at some depth. -/
def StandsIn (part : Nat → String) (text : String) : Prop :=
  ∃ depth, (part depth).toList <:+: text.toList

section StandsIn

variable {part : Nat → String} {text : String}

theorem standsIn_self (depth : Nat) : StandsIn part (part depth) :=
  ⟨depth, List.infix_refl _⟩

theorem StandsIn.append_right (h : StandsIn part text) (before : String) :
    StandsIn part (before ++ text) := by
  obtain ⟨depth, h⟩ := h
  refine ⟨depth, ?_⟩
  rw [String.toList_append]
  exact h.trans (List.suffix_append _ _).isInfix

theorem StandsIn.append_left (h : StandsIn part text) (after : String) :
    StandsIn part (text ++ after) := by
  obtain ⟨depth, h⟩ := h
  refine ⟨depth, ?_⟩
  rw [String.toList_append]
  exact h.trans (List.prefix_append _ _).isInfix

end StandsIn

/-- The lines stand in those of a statement, wherever it stands. -/
structure StmtLines.Has (lines : StmtLines) (part : Nat → String) : Prop where
  alone (depth : Nat) : StandsIn part (lines.alone depth)
  braced (depth : Nat) : StandsIn part (lines.braced depth)
  otherwise (depth : Nat) : StandsIn part (lines.otherwise depth)

namespace StmtLines

variable {part lines : Nat → String}

theorem has_ofLines (h : ∀ depth, StandsIn part (lines depth)) : (ofLines lines).Has part where
  alone depth := h depth
  braced depth := h (depth + 1)
  otherwise depth := ((h (depth + 1)).append_right _).append_left _

theorem has_ofItems (h : ∀ depth, StandsIn part (lines depth)) : (ofItems lines).Has part where
  alone depth := ((h (depth + 1)).append_right _).append_left _
  braced depth := h (depth + 1)
  otherwise depth := ((h (depth + 1)).append_right _).append_left _

theorem has_ofCond (cond : String) (h : ∀ depth, StandsIn part (lines depth)) :
    (ofCond cond lines).Has part where
  alone depth := (h depth).append_right _
  braced depth := (h (depth + 1)).append_right _
  otherwise depth := (h depth).append_right _

theorem Has.ofLoop {body : StmtLines} (h : body.Has part) (head tail : String) :
    (StmtLines.ofLoop head body tail).Has part :=
  has_ofLines fun depth => ((h.braced depth).append_right _).append_left _

end StmtLines

/-- The results are those of the items, in order. -/
theorem Except.forall₂_of_mapM_eq_ok {ε α β : Type} {f : α → Except ε β} {items : List α}
    {results : List β} (h : items.mapM f = .ok results) :
    List.Forall₂ (fun a b => f a = .ok b) items results := by
  have hitems : Ensures (items.mapM f) (List.Forall₂ (fun a b => f a = .ok b) items) :=
    ensures_mapM items fun _ _ _ hb => hb
  exact hitems results h

section Emission

variable {family : Family} {d : Decl}

/-- A `for` loop with code declares no arrays. -/
theorem ForInit.not_isArray_of_emit {init : Option ForInit} {code : String}
    (h : ForInit.emit family init = .ok code) (hd : d ∈ init.toList.flatMap ForInit.declList) :
    d.isArray = false := by
  rcases init with _ | ds | e
  · cases hd
  · have hmem : d ∈ ds := by simpa [declList] using hd
    obtain ⟨found, hfound, -⟩ := Except.bind_eq_ok h
    obtain ⟨head, -, hhead⟩ :=
      forall₂_exists_of_mem (Except.forall₂_of_mapM_eq_ok hfound).flip d hmem
    unfold Decl.emitLoopVariable at hhead
    split at hhead
    · cases hhead
    · split at hhead
      · cases hhead
      · next harray => exact Bool.eq_false_iff.2 harray
  · simp [declList] at hd

namespace Stmt

theorem exists_emit_of_whileLoop {p : Expr} {body : Stmt} {c : Coord} {lines : StmtLines}
    (h : (whileLoop p body c).emit family = .ok lines) :
    ∃ head code, body.emit family = .ok code ∧ .ofLoop head code "" = lines := by
  cases family with
  | shader => cases h
  | scalar =>
    obtain ⟨cond, -, h⟩ := Except.bind_eq_ok h
    obtain ⟨code, hcode, h⟩ := Except.bind_eq_ok h
    exact ⟨_, code, hcode, Except.ok.inj h⟩

theorem exists_emit_of_doWhile {p : Expr} {body : Stmt} {c : Coord} {lines : StmtLines}
    (h : (doWhile p body c).emit family = .ok lines) :
    ∃ tail code, body.emit family = .ok code ∧ .ofLoop "do" code tail = lines := by
  cases family with
  | shader => cases h
  | scalar =>
    obtain ⟨code, hcode, h⟩ := Except.bind_eq_ok h
    obtain ⟨cond, -, h⟩ := Except.bind_eq_ok h
    exact ⟨_, code, hcode, Except.ok.inj h⟩

/-- The code of a statement has the lines of an array. -/
def HasLocal (family : Family) (d : Decl) (lines : StmtLines) : Prop :=
  ∃ part, d.emitLocal family = .ok part ∧ lines.Has part

mutual

/-- The code of a statement has the lines of each array that is declared in it. -/
theorem hasLocal_emit (harray : d.isArray) (s : Stmt) {lines : StmtLines}
    (h : s.emit family = .ok lines) (hd : d ∈ s.decls) : HasLocal family d lines := by
  cases s with
  | decl d' c =>
    -- Here the lines are made; the other cases put them into longer code.
    obtain rfl : d = d' := by simpa [decls, substmts, ownDecls] using hd
    obtain ⟨part, hpart, rfl⟩ := Except.map_eq_ok h
    exact ⟨part, hpart, StmtLines.has_ofLines standsIn_self⟩
  | block items b c =>
    obtain ⟨codes, hcodes, rfl⟩ := Except.map_eq_ok h
    have hd : d ∈ declsList items := by simpa [decls, declsList, substmts, ownDecls] using hd
    obtain ⟨part, hpart, hcode⟩ := hasLocal_emitList harray items hcodes hd
    exact ⟨part, hpart, StmtLines.has_ofItems hcode⟩
  | ifThen p t c =>
    obtain ⟨cond, -, h⟩ := Except.bind_eq_ok h
    obtain ⟨onTrue, ht, h⟩ := Except.bind_eq_ok h
    cases h
    have hd : d ∈ t.decls := by simpa [decls, substmts, ownDecls] using hd
    obtain ⟨part, hpart, hcode⟩ := hasLocal_emit harray t ht hd
    exact ⟨part, hpart, StmtLines.has_ofCond cond fun depth => (hcode.braced depth).append_left _⟩
  | ifElse p t e c =>
    obtain ⟨cond, -, h⟩ := Except.bind_eq_ok h
    obtain ⟨onTrue, ht, h⟩ := Except.bind_eq_ok h
    obtain ⟨onFalse, he, h⟩ := Except.bind_eq_ok h
    cases h
    have hd : d ∈ t.decls ∨ d ∈ e.decls := by simpa [decls, substmts, ownDecls] using hd
    rcases hd with hd | hd
    · obtain ⟨part, hpart, hcode⟩ := hasLocal_emit harray t ht hd
      exact ⟨part, hpart,
        StmtLines.has_ofCond cond fun depth => (hcode.braced depth).append_left _⟩
    · obtain ⟨part, hpart, hcode⟩ := hasLocal_emit harray e he hd
      exact ⟨part, hpart,
        StmtLines.has_ofCond cond fun depth => (hcode.otherwise depth).append_right _⟩
  | forLoop init cond next body c =>
    obtain ⟨initCode, hinit, h⟩ := Except.bind_eq_ok h
    obtain ⟨condCode, -, h⟩ := Except.bind_eq_ok h
    obtain ⟨nextCode, -, h⟩ := Except.bind_eq_ok h
    obtain ⟨bodyCode, hbody, h⟩ := Except.bind_eq_ok h
    cases h
    have hd : d ∈ init.toList.flatMap ForInit.declList ∨ d ∈ body.decls := by
      simpa [decls, substmts, ownDecls] using hd
    rcases hd with hd | hd
    · -- A clause that declares an array has no code.
      rw [ForInit.not_isArray_of_emit hinit hd] at harray
      cases harray
    · obtain ⟨part, hpart, hcode⟩ := hasLocal_emit harray body hbody hd
      exact ⟨part, hpart, hcode.ofLoop _ _⟩
  | whileLoop p body c =>
    obtain ⟨head, bodyCode, hbody, rfl⟩ := exists_emit_of_whileLoop h
    have hd : d ∈ body.decls := by simpa [decls, substmts, ownDecls] using hd
    obtain ⟨part, hpart, hcode⟩ := hasLocal_emit harray body hbody hd
    exact ⟨part, hpart, hcode.ofLoop _ _⟩
  | doWhile p body c =>
    obtain ⟨tail, bodyCode, hbody, rfl⟩ := exists_emit_of_doWhile h
    have hd : d ∈ body.decls := by simpa [decls, substmts, ownDecls] using hd
    obtain ⟨part, hpart, hcode⟩ := hasLocal_emit harray body hbody hd
    exact ⟨part, hpart, hcode.ofLoop _ _⟩
  | label n s c => cases h
  | expr | ret | brk | cont | goto | empty => simp [decls, substmts, ownDecls] at hd

theorem hasLocal_emitList (harray : d.isArray) (items : List Stmt) {code : Nat → String}
    (h : emitList family items = .ok code) (hd : d ∈ declsList items) :
    ∃ part, d.emitLocal family = .ok part ∧ ∀ depth, StandsIn part (code depth) := by
  cases items with
  | nil => cases hd
  | cons s rest =>
    obtain ⟨first, hfirst, h⟩ := Except.bind_eq_ok h
    obtain ⟨others, hothers, h⟩ := Except.bind_eq_ok h
    cases h
    have hd : d ∈ s.decls ∨ d ∈ declsList rest := by
      simpa [decls, declsList, substmtsList] using hd
    rcases hd with hd | hd
    · obtain ⟨part, hpart, hcode⟩ := hasLocal_emit harray s hfirst hd
      exact ⟨part, hpart, fun depth => (hcode.alone depth).append_left _⟩
    · obtain ⟨part, hpart, hcode⟩ := hasLocal_emitList harray rest hothers hd
      exact ⟨part, hpart, fun depth => (hcode depth).append_right _⟩

end

end Stmt

/-- The code of a function has the lines of each local array. -/
theorem FuncDef.exists_emitLocal {f : FuncDef} {code : FunctionCode} (h : f.emit family = .ok code)
    (hd : d ∈ f.body.decls) (harray : d.isArray) :
    ∃ part, d.emitLocal family = .ok part ∧ StandsIn part code.body := by
  obtain ⟨signature, -, h⟩ := Except.bind_eq_ok (Except.mapError_eq_ok h)
  obtain ⟨items, hitems, h⟩ := Except.bind_eq_ok h
  cases h
  obtain ⟨part, hpart, hcode⟩ := Stmt.hasLocal_emitList harray f.body.items hitems hd
  exact ⟨part, hpart, ((hcode 1).append_right _).append_left _⟩

end Emission

/-! ### Lines of items -/

/-- The element of an array at a position. -/
def elementExpr (name : String) (i : Nat) : Expr :=
  .index (.id name none) (.literal ⟨.int, toString i⟩ none) none

namespace Expr

/-- What the line of an item is the code of. The operator `=` binds more strongly than the comma, so
that the first of several operands is assigned and the others follow. -/
def itemCode (name : String) (i : Nat) : Expr → Expr
  | comma (e :: rest) c => comma (assign .assign (elementExpr name i) e none :: rest) c
  | e => assign .assign (elementExpr name i) e none

/-- The part of an item that its line assigns. -/
def assignedPart : Expr → Expr
  | comma (e :: _) _ => e
  | e => e

/-- A list of operands that has none is no expression of C. -/
def isVacant : Expr → Bool
  | comma [] _ => true
  | _ => false

/-- Whether the expression is a list of operands. -/
def isComma : Expr → Bool
  | comma .. => true
  | _ => false

end Expr

/-- What the lines of items are the code of, from a position on. -/
def itemCodes (name : String) (i : Nat) : List Expr → List Expr
  | [] => []
  | e :: rest => e.itemCode name i :: itemCodes name (i + 1) rest

section Lines

variable {family : Family} (name : String)

theorem inInt64_of_le {i j : Nat} (hj : InInt64 j) (hij : i ≤ j) : InInt64 i := by
  have hmin : int64Min ≤ 0 := by decide
  have hmax := hj.2
  exact ⟨by omega, by omega⟩

theorem elementExpr_emit {i : Nat} (hi : InInt64 i) :
    (elementExpr name i).emit family = .ok (name ++ "[" ++ toString i ++ "]") := by
  have htext : toString (i : Int) = toString i := rfl
  have hread := Literal.readInt?_toString_of_inInt64 hi
  rw [htext] at hread
  have hsubscript : Literal.emit family ⟨.int, toString i⟩ = .ok (toString i) := by
    simp only [Literal.emit, Literal.intValue?, hread, htext]
  simp only [elementExpr, Expr.emit, bind, Except.bind, hsubscript]
  rfl

/-- What stands before the first text stands before all. -/
theorem intercalate_append_cons (separator head first : String) (rest : List String) :
    separator.intercalate ((head ++ first) :: rest) =
      head ++ separator.intercalate (first :: rest) := by
  refine String.toList_inj.1 ?_
  cases rest <;> simp [String.toList_intercalate, List.intercalate]

/-- The code of an assignment to an element. -/
theorem emit_assign_elementExpr {e : Expr} {value : String} (hvalue : e.emit family = .ok value)
    {i : Nat} (hi : InInt64 i) :
    (Expr.assign .assign (elementExpr name i) e none).emit family =
      .ok (name ++ "[" ++ toString i ++ "] = " ++ parenthesized (e.precedence < 2) value) := by
  have hline : name ++ "[" ++ toString i ++ "]" ++ " " ++ "=" ++ " " =
      name ++ "[" ++ toString i ++ "] = " := by
    simp only [String.append_assoc]
    rfl
  simp only [Expr.emit, elementExpr_emit name hi, hvalue, bind, Except.bind, pure, Except.pure]
  rw [← hline]
  rfl

theorem Expr.two_le_precedence {e : Expr} (h : e.isComma = false) : 2 ≤ e.precedence := by
  cases e with
  | comma => cases h
  | binary op => exact Nat.le_trans (by decide) (binaryOp_precedence op).1
  | unary op => cases op <;> exact Nat.le_of_ble_eq_true rfl
  | _ => exact Nat.le_of_ble_eq_true rfl

/-- The line of an item is the code of an assignment. -/
theorem itemCode_emit {e : Expr} {value : String} (hvalue : e.emit family = .ok value)
    (he : e.isVacant = false) {i : Nat} (hi : InInt64 i) :
    (e.itemCode name i).emit family = .ok (name ++ "[" ++ toString i ++ "] = " ++ value) := by
  fun_cases Expr.itemCode name i e with
  | case1 first rest c =>
    obtain ⟨codes, hcodes, hvalue⟩ := Except.bind_eq_ok hvalue
    obtain ⟨firstCode, hfirst, hcodes⟩ := Except.bind_eq_ok hcodes
    obtain ⟨restCodes, hrest, hcodes⟩ := Except.bind_eq_ok hcodes
    cases hcodes
    cases hvalue
    have hassign := emit_assign_elementExpr name hfirst hi
    rw [Expr.emit, Expr.emitList, hassign, hrest]
    exact congrArg Except.ok (intercalate_append_cons _ _ _ _)
  | case2 e hoperands =>
    have hcomma : e.isComma = false := by
      cases e with
      | comma items c =>
        cases items with
        | nil => cases he
        | cons first rest => exact absurd rfl (hoperands first rest c)
      | _ => rfl
    have hprecedence : ¬e.precedence < 2 := Nat.not_lt.2 (Expr.two_le_precedence hcomma)
    rw [emit_assign_elementExpr name hvalue hi, parenthesized, decide_eq_false hprecedence]
    rfl

/-- The lines of items are the code of assignments. -/
theorem emitList_itemCodes {items : List Expr} {values : List String}
    (hvalues : items.mapM (Expr.emit family) = .ok values)
    (hitems : ∀ e ∈ items, e.isVacant = false) {i : Nat} (hi : InInt64 ↑(i + items.length)) :
    Stmt.emitList family ((itemCodes name i items).map fun e => .expr e none) =
      .ok fun depth => String.join <| values.mapIdx fun j value =>
        lineAt depth (name ++ "[" ++ toString (i + j) ++ "] = " ++ value ++ ";") := by
  induction items generalizing i values with
  | nil =>
    cases hvalues
    rfl
  | cons e rest ih =>
    rw [List.mapM_cons] at hvalues
    obtain ⟨value, hvalue, hvalues⟩ := Except.bind_eq_ok hvalues
    obtain ⟨others, hothers, hvalues⟩ := Except.bind_eq_ok hvalues
    cases hvalues
    obtain ⟨he, hrest⟩ := List.forall_mem_cons.1 hitems
    rw [List.length_cons] at hi
    have hfirst : InInt64 (i : Int) := inInt64_of_le hi (Nat.le_add_right _ _)
    have hline := itemCode_emit name hvalue he hfirst
    have hlines := ih hothers hrest (i := i + 1) (by rwa [Nat.add_right_comm, Nat.add_assoc])
    simp only [itemCodes, List.map_cons, Stmt.emitList, Stmt.emit, hline, hlines]
    refine congrArg Except.ok (funext fun depth => ?_)
    simp only [List.mapIdx_cons, String.join_cons, Nat.add_assoc, Nat.add_comm 1]
    rfl

end Lines

/-! ### Runs of the lines -/

/-- Integers are taken where integers are asked for. -/
def Rules.TakesIntegers (rules : Rules) : Prop :=
  ∀ n, rules.expect? .int (.int n) = some (.int n)

theorem Rules.takesIntegers_explicit : explicit.TakesIntegers := fun _ => rfl

/-- The cell of an element of an array. -/
def Binding.elementCell (b : Binding) (i : Nat) : Cell :=
  { b.cell with index := i }

/-- What an element of an array holds. -/
def Memory.element? (m : Memory) (b : Binding) (i : Nat) : Option Scalar :=
  (m (b.elementCell i)).map Subtype.val

/-- Run the lines of items from a position on. -/
def assignItems (rules : Rules) (calls : Calls) (ctx : Context) (name : String) (i : Nat)
    (items : List Expr) : Action Unit :=
  (itemCodes name i items).forM fun e => Stmt.evalNext rules calls ctx (some e)

theorem assignItems_cons (rules : Rules) (calls : Calls) (ctx : Context) (name : String) (i : Nat)
    (e : Expr) (rest : List Expr) :
    assignItems rules calls ctx name i (e :: rest) = (do
      Stmt.evalNext rules calls ctx (some (e.itemCode name i))
      assignItems rules calls ctx name (i + 1) rest) :=
  rfl

namespace Family

/-- What an element holds once its array is declared. Shader code leaves it undefined. Scalar code
puts the number zero into it, which is no truth value. -/
def newElement? : Family → ScalarType → Option Scalar
  | scalar, .int => some (.int 0)
  | scalar, .float => some (.float 0)
  | _, _ => none

/-- Declare an array. -/
def newArray (family : Family) (b : Binding) : Action Unit :=
  if (family.newElement? b.type).isSome then .zero b.place else .erase b.place

/-- Run the code of an array: its declaration, and the lines of its items. -/
def runArray (family : Family) (rules : Rules) (calls : Calls) (ctx : Context) (name : String)
    (b : Binding) (items : List Expr) : Action Unit := do
  family.newArray b
  assignItems rules calls ctx name 0 items

theorem newElement?_eq_zero {family : Family} {type : ScalarType}
    (h : (family.newElement? type).isSome) : family.newElement? type = some (.zero type) := by
  cases family <;> cases type <;> first | rfl | cases h

theorem newArray_element? {family : Family} {b : Binding} {m m' : Memory}
    (h : family.newArray b m = some ((), m')) (i : Nat) :
    m'.element? b i = family.newElement? b.type := by
  unfold newArray at h
  split at h
  · next hnew =>
    cases h
    rw [newElement?_eq_zero hnew]
    simp [Memory.element?, Binding.elementCell, Binding.cell]
  · next hnew =>
    cases h
    rw [Option.not_isSome_iff_eq_none.1 hnew]
    simp [Memory.element?, Binding.elementCell, Binding.cell]

end Family

section Runs

variable {rules : Rules} {calls : Calls} {ctx : Context} {name : String} {b : Binding}
  {names : List String} {m m' : Memory}

/-- A stored value is in its element, and the other elements are as before. -/
theorem Action.store_element? {i : Nat} {v w : Scalar}
    (h : Action.store rules (b.elementCell i) v m = some (w, m')) :
    rules.expect? b.type v = some w ∧ m'.element? b i = some w ∧
      ∀ j, j ≠ i → m'.element? b j = m.element? b j := by
  obtain ⟨w', m₁, hexpect, h⟩ := Action.bind_eq_some.1 h
  obtain ⟨_, m₂, hwrite, h⟩ := Action.bind_eq_some.1 h
  cases h
  obtain ⟨w'', hw, heq⟩ := Option.map_eq_some_iff.1 hexpect
  cases heq
  unfold Action.write at hwrite
  split at hwrite
  · next htype =>
    cases hwrite
    refine ⟨hw, by simp [Memory.element?], fun j hj => ?_⟩
    have hcell : b.elementCell j ≠ b.elementCell i := by
      simpa [Binding.elementCell] using hj
    simp [Memory.element?, hcell]
  · cases hwrite

variable (hrules : rules.TakesIntegers) (hb : ctx.binding? name = some b) (harray : b.isArray)

include hrules hb harray

theorem elementExpr_evalCell (i : Nat) :
    (elementExpr name i).evalCell rules calls ctx = pure (b.elementCell i) := by
  have hname : ctx.array? (.id name none) = some b := by
    simp [Context.array?, hb, harray]
  have hsubscript : Literal.scalar? ⟨.int, toString i⟩ = some (.int i) := by
    have htext : toString (i : Int) = toString i := rfl
    simp only [Literal.scalar?, ← htext, Literal.integer?_toString, Option.map_some]
  simp only [elementExpr, Expr.evalCell, Context.element, hname, Expr.eval, hsubscript]
  have helement : b.element rules (.int i) = pure (b.elementCell i) := by
    simp only [Binding.element, hrules i]
    rfl
  rw [← helement]
  rfl

theorem eval_assign_elementExpr (i : Nat) (e : Expr) :
    (Expr.assign .assign (elementExpr name i) e none).eval rules calls ctx =
      e.eval rules calls ctx >>= Action.store rules (b.elementCell i) := by
  rw [Expr.eval, elementExpr_evalCell hrules hb harray, pure_bind]
  rfl

/-- An assignment to an element stores the value of its item. -/
theorem element?_of_eval_assign {i : Nat} {e : Expr} {w : Scalar}
    (he : (e.eval rules calls ctx).Within (Memory.AgreeOff (· ≠ b.place)))
    (h : (Expr.assign .assign (elementExpr name i) e none).eval rules calls ctx m = some (w, m')) :
    (∃ v m₁, e.eval rules calls ctx m = some (v, m₁) ∧ rules.expect? b.type v = some w) ∧
      m'.element? b i = some w ∧ ∀ j, j ≠ i → m'.element? b j = m.element? b j := by
  rw [eval_assign_elementExpr hrules hb harray] at h
  obtain ⟨v, m₁, hv, h⟩ := Action.bind_eq_some.1 h
  obtain ⟨hw, helement, hothers⟩ := Action.store_element? h
  refine ⟨⟨v, m₁, hv, hw⟩, helement, fun j hj => ?_⟩
  rw [hothers j hj, Memory.element?, he m v m₁ hv _ fun hplace => hplace rfl]
  rfl

variable (hcalls : ∀ f ∈ names, ∀ args, (calls f args).Within (Memory.AgreeOff (· ≠ b.place)))

include hcalls

/-- The line of an item stores the value of the part that it assigns. -/
theorem element?_of_evalNext {i : Nat} {e : Expr} (he : e.IsWithin (· ≠ b.place) names ctx)
    (h : Stmt.evalNext rules calls ctx (some (e.itemCode name i)) m = some ((), m')) :
    ∃ v m₁ w, e.assignedPart.eval rules calls ctx m = some (v, m₁) ∧
      rules.expect? b.type v = some w ∧ m'.element? b i = some w ∧
      ∀ j, j ≠ i → m'.element? b j = m.element? b j := by
  obtain ⟨result, m₂, h, hpure⟩ := Action.bind_eq_some.1 h
  cases hpure
  have hwithin (e : Expr) (he : e.IsWithin (· ≠ b.place) names ctx) :=
    Expr.eval_within hcalls (fun _ _ => id) rules ctx e he
  have hassigned {e : Expr} (he : e.IsWithin (· ≠ b.place) names ctx) {w : Scalar} {m₁ : Memory}
      (h : (Expr.assign .assign (elementExpr name i) e none).eval rules calls ctx m =
        some (w, m₁)) :=
    element?_of_eval_assign hrules hb harray (hwithin e he) h
  revert h
  fun_cases Expr.itemCode name i e with
  | case1 first rest c =>
    intro h
    obtain ⟨hfirst, hrest⟩ := List.forall_mem_cons.1 (Expr.everywhere_comma.1 he).2
    rw [Expr.eval] at h
    cases rest with
    | nil =>
      rw [Expr.evalLast] at h
      obtain ⟨⟨v, m₁, hv, hw⟩, helement⟩ := hassigned hfirst h
      exact ⟨v, m₁, result, hv, hw, helement⟩
    | cons second others =>
      rw [Expr.evalLast] at h
      · obtain ⟨w, m₁, h, hlast⟩ := Action.bind_eq_some.1 h
        obtain ⟨⟨v, m₂, hv, hw⟩, helement, helements⟩ := hassigned hfirst h
        -- The items behind the first one write elsewhere.
        have hkept := Expr.evalLast_within hcalls (fun _ _ => id) rules ctx _ hrest _ _ _ hlast
        have hsame (j : Nat) : m'.element? b j = m₁.element? b j := by
          rw [Memory.element?, hkept _ fun hplace => hplace rfl]
          rfl
        refine ⟨v, m₂, w, hv, hw, (hsame i).trans helement, fun j hj => ?_⟩
        exact (hsame j).trans (helements j hj)
      · exact List.cons_ne_nil _ _
  | case2 e hoperands =>
    intro h
    have hpart : e.assignedPart = e := by
      unfold Expr.assignedPart
      split
      · next rest c _ => exact absurd rfl (hoperands _ rest c)
      · rfl
    rw [hpart]
    obtain ⟨⟨v, m₁, hv, hw⟩, helement⟩ := hassigned he h
    exact ⟨v, m₁, result, hv, hw, helement⟩

/-- What the lines of items from a position on do to the elements. Each item is evaluated after the
lines before it. -/
theorem element?_of_assignItems {i : Nat} {items : List Expr}
    (hitems : ∀ e ∈ items, e.IsWithin (· ≠ b.place) names ctx)
    (h : assignItems rules calls ctx name i items m = some ((), m')) :
    (∀ j e, items[j]? = some e → ∃ m₁ v m₂ w,
      assignItems rules calls ctx name i (items.take j) m = some ((), m₁) ∧
      e.assignedPart.eval rules calls ctx m₁ = some (v, m₂) ∧
      rules.expect? b.type v = some w ∧ m'.element? b (i + j) = some w) ∧
    ∀ j, j < i ∨ i + items.length ≤ j → m'.element? b j = m.element? b j := by
  induction items generalizing i m with
  | nil =>
    cases h
    exact ⟨nofun, fun _ _ => rfl⟩
  | cons e rest ih =>
    obtain ⟨he, hrest⟩ := List.forall_mem_cons.1 hitems
    obtain ⟨_, m₁, hline, hlines⟩ := Action.bind_eq_some.1 h
    obtain ⟨v, m₂, w, hv, hw, helement, hothers⟩ :=
      element?_of_evalNext hrules hb harray hcalls he hline
    obtain ⟨hgiven, hkept⟩ := ih hrest hlines
    refine ⟨fun j e' hj => ?_, fun j hj => ?_⟩
    · cases j with
      | zero =>
        cases hj
        refine ⟨m, v, m₂, w, rfl, hv, hw, ?_⟩
        rw [Nat.add_zero, hkept i (.inl (Nat.lt_succ_self i)), helement]
      | succ j =>
        obtain ⟨m₃, v', m₄, w', hrun, hrest'⟩ := hgiven j e' hj
        rw [← Nat.add_assoc, Nat.add_right_comm]
        exact ⟨m₃, v', m₄, w', Action.bind_eq_some.2 ⟨(), m₁, hline, hrun⟩, hrest'⟩
    · rw [List.length_cons] at hj
      rw [hkept j (by omega), hothers j (by omega)]

omit hcalls in
/-- Lines of items without commas store what an initializer list of C stores. -/
theorem assignItems_eq_storeItems {i : Nat} {items : List Expr}
    (hcommas : ∀ e ∈ items, e.isComma = false) (hlists : ∀ e ∈ items, ∀ es c, e ≠ .initList es c) :
    assignItems rules calls ctx name i items = Decl.storeItems rules calls ctx b i items := by
  induction items generalizing i with
  | nil => rfl
  | cons e rest ih =>
    obtain ⟨hcomma, hcommas⟩ := List.forall_mem_cons.1 hcommas
    obtain ⟨hlist, hlists⟩ := List.forall_mem_cons.1 hlists
    have hcode : e.itemCode name i = .assign .assign (elementExpr name i) e none := by
      cases e with
      | comma => cases hcomma
      | _ => rfl
    have hline : Stmt.evalNext rules calls ctx (some (e.itemCode name i)) =
        Decl.storeInit rules calls ctx (b.elementCell i) e := by
      rw [hcode, Stmt.evalNext, eval_assign_elementExpr hrules hb harray, bind_assoc,
        Decl.storeInit]
      exact fun e' c => hlist [e'] c
    rw [assignItems_cons, hline, Decl.storeItems]
    exact congrArg _ (funext fun _ => ih hcommas hlists)

omit hcalls in
/-- Where a new array is zero, the code of an array of items without commas does what its
declaration does in C. -/
theorem Family.runArray_eq_runInit {family : Family} {d : Decl} {items : List Expr} {c : Coord}
    (hinit : d.init = some (.initList items c)) (hnew : (family.newElement? b.type).isSome)
    (hcommas : ∀ e ∈ items, e.isComma = false) (hlists : ∀ e ∈ items, ∀ es c, e ≠ .initList es c) :
    family.runArray rules calls ctx name b items = d.runInit rules calls ctx b := by
  rw [runArray, newArray, if_pos hnew,
    assignItems_eq_storeItems hrules hb harray hcommas hlists, Decl.runInit]
  simp only [hinit, harray, if_true]

end Runs

/-- An initializer list has no code. -/
theorem ne_initList_of_mapM_emit {family : Family} {items : List Expr} {values : List String}
    (h : items.mapM (Expr.emit family) = .ok values) : ∀ e ∈ items, ∀ es c, e ≠ .initList es c := by
  rintro e he es c rfl
  obtain ⟨value, -, hvalue⟩ := forall₂_exists_of_mem (Except.forall₂_of_mapM_eq_ok h).flip _ he
  cases hvalue

theorem Decl.isArray_of_arrayLen? {d : Decl} {n : Nat} (h : d.arrayLen? = some n) : d.isArray := by
  unfold arrayLen? at h
  unfold isArray
  split at h
  · rfl
  · cases h

/-- The lines of a local array with an initializer list. -/
theorem Decl.emitLocal_initList {family : Family} {d : Decl} {n : Nat}
    (hlen : d.arrayLen? = some n) {items : List Expr} {c : Coord}
    (hinit : d.init = some (.initList items c)) {lines : Nat → String}
    (h : d.emitLocal family = .ok lines) :
    ∃ name values, d.name = some name ∧ items.mapM (Expr.emit family) = .ok values ∧
      lines = fun depth =>
        lineAt depth (family.arrayLocal d.scalar name n ++ ";") ++ itemLines name values depth := by
  have harray : d.isArray := isArray_of_arrayLen? hlen
  unfold emitLocal at h
  split at h
  · cases h
  · next name hname =>
    simp only [harray, if_true, hlen, hinit] at h
    obtain ⟨values, hvalues, h⟩ := Except.bind_eq_ok h
    exact ⟨name, values, hname, hvalues, (Except.ok.inj h).symm⟩

/-! ### Elements of local arrays -/

/-- What the code of an array leaves in the first elements of the array. One that has an item holds
the value of the part that the line of the item assigns, evaluated after the lines before it. The
others are as the declaration makes them. -/
structure Family.Fills (family : Family) (rules : Rules) (calls : Calls) (ctx : Context)
    (name : String) (b : Binding) (items : List Expr) (n : Nat) (m m' : Memory) : Prop where
  item (i : Nat) (e : Expr) (h : items[i]? = some e) :
    ∃ m₁ v m₂ w, family.runArray rules calls ctx name b (items.take i) m = some ((), m₁) ∧
      e.assignedPart.eval rules calls ctx m₁ = some (v, m₂) ∧
      rules.expect? b.type v = some w ∧ m'.element? b i = some w
  rest (i : Nat) (hi : items.length ≤ i) (hn : i < n) :
    m'.element? b i = family.newElement? b.type

theorem Family.fills_of_runArray {family : Family} {rules : Rules} {calls : Calls} {ctx : Context}
    {name : String} {b : Binding} {names : List String} {items : List Expr} {m m' : Memory}
    (hrules : rules.TakesIntegers) (hb : ctx.binding? name = some b) (harray : b.isArray)
    (hcalls : ∀ f ∈ names, ∀ args, (calls f args).Within (Memory.AgreeOff (· ≠ b.place)))
    (hitems : ∀ e ∈ items, e.IsWithin (· ≠ b.place) names ctx)
    (h : family.runArray rules calls ctx name b items m = some ((), m')) (n : Nat) :
    family.Fills rules calls ctx name b items n m m' := by
  obtain ⟨_, m₀, hnew, hlines⟩ := Action.bind_eq_some.1 h
  obtain ⟨hgiven, hkept⟩ := element?_of_assignItems hrules hb harray hcalls hitems hlines
  refine ⟨fun i e he => ?_, fun i hi _ => ?_⟩
  · obtain ⟨m₁, v, m₂, w, hrun, hv, hw, helement⟩ := hgiven i e he
    rw [Nat.zero_add] at helement
    exact ⟨m₁, v, m₂, w, Action.bind_eq_some.2 ⟨(), m₀, hnew, hrun⟩, hv, hw, helement⟩
  · rw [hkept i (.inr (by omega)), newArray_element? hnew]

/-- In the code of a function stand the lines of each local array with an initializer list: its
declaration, and the code of an assignment for each item. Run on a memory, they give an element with
an item the value of the assigned part, which is all of an item without commas. The elements that
are left have no value in shader code, and the value zero in scalar code if they are numbers. So for
numbers in scalar code the lines do what C does. -/
theorem FuncDef.emit_localArray {family : Family} {f : FuncDef} {code : FunctionCode}
    (h : f.emit family = .ok code) {d : Decl} (hd : d ∈ f.body.decls) {n : Nat}
    (hlen : d.arrayLen? = some n) {items : List Expr} {c : Coord}
    (hinit : d.init = some (.initList items c)) :
    ∃ name values,
      d.name = some name ∧ items.mapM (Expr.emit family) = .ok values ∧
      StandsIn (fun depth => lineAt depth (family.arrayLocal d.scalar name n ++ ";") ++
        itemLines name values depth) code.body ∧
      ((∀ e ∈ items, e.isVacant = false) → InInt64 items.length →
        Stmt.emitList family ((itemCodes name 0 items).map fun e => .expr e none) =
          .ok (itemLines name values)) ∧
      ∀ rules calls ctx b, rules.TakesIntegers → ctx.binding? name = some b → b.isArray →
        b.type = d.scalar →
        (∀ names m m',
          (∀ f ∈ names, ∀ args, (calls f args).Within (Memory.AgreeOff (· ≠ b.place))) →
          (∀ e ∈ items, e.IsWithin (· ≠ b.place) names ctx) →
          family.runArray rules calls ctx name b items m = some ((), m') →
            family.Fills rules calls ctx name b items n m m') ∧
        ((family.newElement? d.scalar).isSome → (∀ e ∈ items, e.isComma = false) →
          family.runArray rules calls ctx name b items = d.runInit rules calls ctx b) := by
  obtain ⟨lines, hlines, hstands⟩ := exists_emitLocal h hd (Decl.isArray_of_arrayLen? hlen)
  obtain ⟨name, values, hname, hvalues, rfl⟩ := Decl.emitLocal_initList hlen hinit hlines
  refine ⟨name, values, hname, hvalues, hstands, fun hvacant hcount => ?_, ?_⟩
  · rw [emitList_itemCodes name hvalues hvacant (by rwa [Nat.zero_add])]
    simp only [Nat.zero_add]
    rfl
  · intro rules calls ctx b hrules hb harray htype
    refine ⟨fun names m m' hcalls hitems hrun => ?_, fun hnew hcommas => ?_⟩
    · exact Family.fills_of_runArray hrules hb harray hcalls hitems hrun n
    · rw [← htype] at hnew
      exact Family.runArray_eq_runInit hrules hb harray hinit hnew hcommas
        (ne_initList_of_mapM_emit hvalues)

/-- The items `x` and `(x, 2.0)`. -/
def paddedItems : List Expr :=
  [.id "x" none, .comma [.id "x" none, .float "2.0" none] none]

/-- The array `float c[3] = {x, (x, 2.0)}`. -/
def paddedArray : Decl :=
  .ofArray "c" .float (some 3) (some (.initList paddedItems none))

/-- The function `float f(float x) { float c[3] = {x, (x, 2.0)}; return c[2]; }`. -/
def paddedFunc : FuncDef where
  decl := .prototype "f" .float [.ofScalar "x" .float none]
  body.items := [
    .decl paddedArray none,
    .ret (some (.index (.id "c" none) (.int 2 none) none)) none]
  body.coord := none
  coord := none

/-- Where the array is kept. -/
def paddedBinding : Binding := ⟨.float, .slot 0, true⟩

/-- The names in the scope of the items. -/
def paddedContext : Context where
  functions := []
  vars := [("c", paddedBinding), ("x", ⟨.float, .param "x", false⟩)]
  slots := 1

/-- A memory in which the parameter is five. -/
def paddedMemory : Memory := fun c =>
  if h : c = ⟨.param "x", .float, 0⟩ then some ⟨.float 5, h ▸ rfl⟩ else none

/-- The run of the lines of the array in that memory. -/
def paddedRun (family : Family) : Option (Unit × Memory) :=
  family.runArray .explicit (fun _ _ => .stuck) paddedContext "c" paddedBinding paddedItems
    paddedMemory

theorem emit_localArray_paddedFunc : ∃ code m' w,
    paddedFunc.emit .scalar = .ok code ∧ paddedArray ∈ paddedFunc.body.decls ∧
      paddedRun .scalar = some ((), m') ∧
      (∃ m₁ v m₂, (Expr.id "x" none).eval .explicit (fun _ _ => .stuck) paddedContext m₁ =
        some (v, m₂) ∧ Rules.explicit.expect? .float v = some w) ∧
      m'.element? paddedBinding 1 = some w ∧ m'.element? paddedBinding 2 = some (.float 0) := by
  have hcode : (paddedFunc.emit .scalar).toOption.isSome := by decide +kernel
  obtain ⟨code, hcode⟩ := Option.isSome_iff_exists.1 hcode
  replace hcode := Except.eq_ok_of_toOption hcode
  have hmem : paddedArray ∈ paddedFunc.body.decls := List.mem_cons_self
  obtain ⟨m', hrun⟩ : ∃ m', paddedRun .scalar = some ((), m') := by
    have hsome : (paddedRun .scalar).isSome := by decide +kernel
    obtain ⟨⟨_, m'⟩, hrun⟩ := Option.isSome_iff_exists.1 hsome
    exact ⟨m', hrun⟩
  have hitems : ∀ e ∈ paddedItems, e.IsWithin (· ≠ paddedBinding.place) [] paddedContext := by
    have hquiet : ∀ e ∈ paddedItems,
        e.hasSideEffects = false ∧ e.subexprs.all (Expr.callsAmong []) := by
      decide +kernel
    exact fun e he => (Expr.isQuiet_iff.2 (hquiet e he)).isWithin _ _
  obtain ⟨name, values, hname, -, -, -, hfills⟩ :=
    FuncDef.emit_localArray (n := 3) hcode hmem rfl rfl
  cases hname
  have hfilled := (hfills .explicit (fun _ _ => .stuck) paddedContext paddedBinding
    Rules.takesIntegers_explicit rfl rfl rfl).1 [] paddedMemory m' nofun hitems hrun
  obtain ⟨m₁, v, m₂, w, -, hv, hw, helement⟩ := hfilled.item 1 _ rfl
  exact ⟨code, m', w, hcode, hmem, hrun, ⟨m₁, v, m₂, hv, hw⟩, helement,
    hfilled.rest 2 (by decide) (by decide)⟩

/-- In shader code nothing is assigned to the last element, and a later operand of an item is not
what is assigned. By the rules of C the elements are two and zero. -/
theorem runArray_paddedArray :
    paddedFunc.emit .shader = .ok {
      prototype := some "float f(float x);"
      body := "float f(float x) " ++ openBrace ++ "\n    float c[3];\n    c[0] = x;\n" ++
        "    c[1] = x, 2.0;\n    return c[2];\n" ++ closeBrace ++ "\n" } ∧
    (paddedRun .shader).map
        (fun r => (r.2.element? paddedBinding 1, r.2.element? paddedBinding 2)) =
      some (some (.float 5), none) ∧
    (paddedArray.runInit .implicit (fun _ _ => .stuck) paddedContext paddedBinding
      paddedMemory).map (fun r => (r.2.element? paddedBinding 1, r.2.element? paddedBinding 2)) =
        some (some (.float 2), some (.float 0)) := by
  refine ⟨?_, ?_, ?_⟩ <;> decide +kernel

end MathKernel
