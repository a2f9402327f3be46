import Mathlib.Data.List.Forall2
import MathKernel.Proofs.Semantics.Execution
import MathKernel.Proofs.Syntax.FreeNames

/-!
# Well-typed bodies

C's rules for the types of operands, for bodies whose names are declared. They are stated with
the types of C, in which comparisons are integers; the types that coercions are found by call
these truth values and agree in all else.

## Main definitions

* `Expr.wellTyped`, `Stmt.wellTyped`, `FuncDef.WellTyped`
* `Context.Converts` — the conversions and the remainder have their own meanings

## Main results

* `Expr.typeIn_refines` — the two notions of type
-/

namespace MathKernel

/-! ### Expressions -/

/-- Whether an operator takes operands of the given types: bits and remainders are of integers. -/
def BinaryOp.takes (op : BinaryOp) (left right : ScalarType) : Bool :=
  left != .void && right != .void &&
    (!(op.isBitwise || op == .mod) || (left != .float && right != .float))

/-- Whether an operator takes an operand of the given type; truth values are not counted up or
down. -/
def UnaryOp.takes (op : UnaryOp) (operand : ScalarType) : Bool :=
  match op with
  | .not | .neg | .plus => operand != .void
  | .bitNot => operand != .void && operand != .float
  | .preInc | .preDec | .postInc | .postDec => operand != .void && operand != .bool

/-- Whether a value of the given type may be passed at a position. Where no parameters are
declared, nothing is converted, so that it is a number. -/
def Signature.takesValue (s : Signature) (i : Nat) (type : ScalarType) : Bool :=
  match s.param? i with
  | some t => t != .void
  | none => s.params == .fixed [] && type != .bool

namespace Expr

/-- Whether the expression names a variable that is no array, or an element. -/
def isPlace : Expr → Bool
  | id .. | index .. => true
  | _ => false

/-- Whether an expression is no call, or one of a conversion, the remainder or a function among
the given names. -/
def callsAmong (names : List String) : Expr → Bool
  | call f _ _ => (ScalarType.ofCName? f).isSome || f == remainderFunction || names.contains f
  | _ => true

/-- Whether an expression is the target of a compound assignment with a value of the given type:
a number, found without effects by functions among the given names. -/
def isCompoundTarget (names : List String) (ctx : Context) (op : BinaryOp) (value : ScalarType)
    (target : Expr) : Bool :=
  target.ctype ctx != .bool && op.takes (target.ctype ctx) value && !target.hasSideEffects &&
    target.subexprs.all (callsAmong names)

variable (quiet : List String) (ctx : Context)

mutual

/-- Whether an expression is well typed. Functions named in `quiet` may be called to find the
target of a compound assignment. -/
def wellTyped : Expr → Bool
  | id name _ => (ctx.cell? name).isSome
  | literal value _ => value.kind != .string
  | binary op l r _ => l.wellTyped && r.wellTyped && op.takes (l.ctype ctx) (r.ctype ctx)
  | unary op e _ => e.wellTyped && op.takes (e.ctype ctx) && (!op.isMutating || e.isPlace)
  | assign op t v _ =>
    t.wellTyped && t.isPlace && t.ctype ctx != .void && v.wellTyped && v.ctype ctx != .void &&
      op.binary?.all fun b => t.isCompoundTarget quiet ctx b (v.ctype ctx)
  | ternary p t e _ =>
    p.wellTyped && p.ctype ctx != .void && t.wellTyped && t.ctype ctx != .void && e.wellTyped &&
      e.ctype ctx != .void
  | call f args _ =>
    match ScalarType.ofCName? f with
    | some t => t != .void && args.length == 1 && wellTypedList args
    | none =>
      match ctx.signature? f with
      | some s => wellTypedArgs s 0 args
      | none => false
  | cast _ e _ => e.wellTyped && e.ctype ctx != .void
  | index a i _ =>
    (ctx.array? a).isSome && i.wellTyped && i.ctype ctx != .void && i.ctype ctx != .float
  | initList .. => false
  | comma items _ => !items.isEmpty && wellTypedList items

/-- Whether arguments from a position on fit the parameters: arrays and texts those of arrays,
values the others. -/
def wellTypedArgs (s : Signature) (i : Nat) : List Expr → Bool
  | [] => true
  | e :: rest =>
    (if (ctx.array? e).isSome || e.text?.isSome then (s.param? i).isNone
    else e.wellTyped && e.ctype ctx != .void && s.takesValue i (e.typeIn ctx.typeEnv)) &&
      wellTypedArgs s (i + 1) rest

/-- Whether expressions are well typed and have values. -/
def wellTypedList : List Expr → Bool
  | [] => true
  | e :: rest => e.wellTyped && e.ctype ctx != .void && wellTypedList rest

end

end Expr

/-! ### Statements -/

/-- Whether an expression is well typed and has a value. -/
def Expr.wellTypedTest (quiet : List String) (ctx : Context) (e : Expr) : Bool :=
  e.wellTyped quiet ctx && e.ctype ctx != .void

namespace Decl

/-- Whether the size of an array is an integer that needs no conversions, as none are made
there. -/
def wellTypedSize (quiet : List String) (ctx : Context) (d : Decl) : Bool :=
  d.size?.all fun e =>
    e.wellTypedTest quiet ctx && (e.coercedAs ctx.typeEnv .int).count == 0

/-- Whether an initializer is well typed in the context of its declaration. A braced list has no
lists inside. -/
def wellTypedInit (quiet : List String) (ctx : Context) (d : Decl) : Bool :=
  match d.init with
  | none => true
  | some (.initList items _) =>
    Expr.wellTypedList quiet ctx items && (d.isArray || items.length == 1)
  | some e =>
    if d.isArray then e.text?.isSome
    else e.wellTyped quiet ctx && e.ctype ctx != .void

/-- Whether the declared name is not in an expression, or had the declared type before. -/
def keepsTypes (env : TypeEnv) (d : Decl) (e : Expr) : Bool :=
  d.name.all fun name => !e.ids.contains name || env.variableType name == d.scalar

/-- Whether a declaration of a function repeats one that is known already. -/
def repeatsFunction (ctx : Context) (d : Decl) : Bool :=
  !d.isFunction || d.name.all fun name => ctx.signature? name == Signature.ofDecl? d

/-- Whether a function that is declared has the types that it has in a file, if it is declared
there too. -/
def agreesWith (file : TypeEnv) (d : Decl) : Bool :=
  !d.isFunction || d.name.all fun name =>
    (file.signature? name).all fun s => Signature.ofDecl? d == some s

/-- Whether a declaration in a body gives no other types to names of the file that are called, nor
to names in its initializer. -/
def keepsNames (file : TypeEnv) (ctx : Context) (d : Decl) : Bool :=
  d.agreesWith file && d.init.all (d.keepsTypes ctx.typeEnv)

/-- Whether a declaration inside a body is well typed. -/
def wellTyped (quiet : List String) (ctx : Context) (d : Decl) : Bool :=
  d.repeatsFunction ctx &&
    (d.isFunction ||
      (d.scalar != .void && d.wellTypedSize quiet ctx && d.wellTypedInit quiet (ctx.declare d) &&
        d.init.all (d.keepsTypes ctx.typeEnv)))

/-- Whether declarations are well typed in order. -/
def wellTypedList (quiet : List String) (ctx : Context) : List Decl → Bool
  | [] => true
  | d :: rest => d.wellTyped quiet ctx && wellTypedList quiet (ctx.declare d) rest

end Decl

/-- Whether an initializer clause is well typed. -/
def ForInit.wellTyped (quiet : List String) (ctx : Context) : Option ForInit → Bool
  | none => true
  | some (.decls ds) => Decl.wellTypedList quiet ctx ds
  | some (.expr e) => e.wellTyped quiet ctx

namespace Stmt

variable (quiet : List String) (result : ScalarType)

mutual

/-- Whether a statement is well typed in a function with the given result. -/
def wellTyped : Context → Stmt → Bool
  | ctx, decl d _ => d.wellTyped quiet ctx
  | ctx, block items _ _ => wellTypedList ctx items
  | ctx, expr e _ => e.wellTyped quiet ctx
  | ctx, ifThen p t _ => p.wellTypedTest quiet ctx && t.wellTyped ctx
  | ctx, ifElse p t e _ =>
    p.wellTypedTest quiet ctx && t.wellTyped ctx && e.wellTyped (t.after ctx)
  | ctx, forLoop init cond next body _ =>
    let inner := ForInit.after ctx init
    ForInit.wellTyped quiet ctx init && cond.all (·.wellTypedTest quiet inner) &&
      next.all (·.wellTyped quiet inner) && body.wellTyped inner
  | ctx, whileLoop p body _ => p.wellTypedTest quiet ctx && body.wellTyped ctx
  | ctx, doWhile p body _ => p.wellTypedTest quiet ctx && body.wellTyped ctx
  | ctx, ret value _ => value.all fun e => e.wellTypedTest quiet ctx && result != .void
  | ctx, label _ s _ => s.wellTyped ctx
  | _, brk _ | _, cont _ | _, goto .. | _, empty _ => true

/-- Whether statements are well typed in order. -/
def wellTypedList : Context → List Stmt → Bool
  | _, [] => true
  | ctx, s :: rest => s.wellTyped ctx && wellTypedList (s.after ctx) rest

end

end Stmt

/-- Whether the body of a function is well typed. -/
def FuncDef.WellTyped (quiet : List String) (u : SourceUnit) (arrays : String → Place)
    (f : FuncDef) : Prop :=
  Stmt.wellTypedList quiet f.returnType (f.context u arrays) f.body.items

/-! ### Expressions in their contexts -/

namespace Decl

/-- The expressions that give a variable its first value. -/
def initExprs (d : Decl) : List Expr :=
  match d.init with
  | none => []
  | some (.initList items _) => items
  | some e => [e]

/-- The expressions of a declaration, each with the context that it is evaluated in. -/
def exprsIn (ctx : Context) (d : Decl) : List (Context × Expr) :=
  d.size?.toList.map (ctx, ·) ++ d.initExprs.map (ctx.declare d, ·)

/-- The expressions of declarations in order. -/
def exprsInList : Context → List Decl → List (Context × Expr)
  | _, [] => []
  | ctx, d :: rest => d.exprsIn ctx ++ exprsInList (ctx.declare d) rest

end Decl

/-- The expressions of an initializer clause. -/
def ForInit.exprsIn (ctx : Context) : Option ForInit → List (Context × Expr)
  | none => []
  | some (.decls ds) => Decl.exprsInList ctx ds
  | some (.expr e) => [(ctx, e)]

namespace Stmt

mutual

/-- The expressions of a statement, each with the context that it is evaluated in. -/
def exprsIn : Context → Stmt → List (Context × Expr)
  | ctx, decl d _ => d.exprsIn ctx
  | ctx, block items _ _ => exprsInList ctx items
  | ctx, expr e _ => [(ctx, e)]
  | ctx, ifThen p t _ => (ctx, p) :: t.exprsIn ctx
  | ctx, ifElse p t e _ => (ctx, p) :: (t.exprsIn ctx ++ e.exprsIn (t.after ctx))
  | ctx, forLoop init cond next body _ =>
    let inner := ForInit.after ctx init
    ForInit.exprsIn ctx init ++ (cond.toList ++ next.toList).map (inner, ·) ++ body.exprsIn inner
  | ctx, whileLoop p body _ => (ctx, p) :: body.exprsIn ctx
  | ctx, doWhile p body _ => (ctx, p) :: body.exprsIn ctx
  | ctx, ret value _ => value.toList.map (ctx, ·)
  | ctx, label _ s _ => s.exprsIn ctx
  | _, brk _ | _, cont _ | _, goto .. | _, empty _ => []

/-- The expressions of statements in order. -/
def exprsInList : Context → List Stmt → List (Context × Expr)
  | _, [] => []
  | ctx, s :: rest => s.exprsIn ctx ++ exprsInList (s.after ctx) rest

end

end Stmt

/-- The expressions of a function's body, each with the context that it is evaluated in. -/
def FuncDef.exprsIn (u : SourceUnit) (arrays : String → Place) (f : FuncDef) :
    List (Context × Expr) :=
  Stmt.exprsInList (f.context u arrays) f.body.items

/-! ### Declarations in their contexts -/

/-- Declarations in order, each with the context that it is in. -/
def Decl.declsIn : Context → List Decl → List (Context × Decl)
  | _, [] => []
  | ctx, d :: rest => (ctx, d) :: declsIn (ctx.declare d) rest

/-- The declarations of an initializer clause. -/
def ForInit.declsIn (ctx : Context) : Option ForInit → List (Context × Decl)
  | some (.decls ds) => Decl.declsIn ctx ds
  | _ => []

namespace Stmt

mutual

/-- The declarations of a statement, each with the context that it is in. -/
def declsIn : Context → Stmt → List (Context × Decl)
  | ctx, decl d _ => [(ctx, d)]
  | ctx, block items _ _ => declsInList ctx items
  | ctx, ifThen _ t _ => t.declsIn ctx
  | ctx, ifElse _ t e _ => t.declsIn ctx ++ e.declsIn (t.after ctx)
  | ctx, forLoop init _ _ body _ =>
    ForInit.declsIn ctx init ++ body.declsIn (ForInit.after ctx init)
  | ctx, whileLoop _ body _ => body.declsIn ctx
  | ctx, doWhile _ body _ => body.declsIn ctx
  | ctx, label _ s _ => s.declsIn ctx
  | _, expr .. | _, ret .. | _, brk _ | _, cont _ | _, goto .. | _, empty _ => []

/-- The declarations of statements in order. -/
def declsInList : Context → List Stmt → List (Context × Decl)
  | _, [] => []
  | ctx, s :: rest => s.declsIn ctx ++ declsInList (s.after ctx) rest

end

end Stmt

/-- The declarations in a function's body, each with the context that it is in. -/
def FuncDef.declsIn (u : SourceUnit) (arrays : String → Place) (f : FuncDef) :
    List (Context × Decl) :=
  Stmt.declsInList (f.context u arrays) f.body.items

/-- Each member of the second list is related to one of the first. -/
theorem forall₂_exists_of_mem {α β : Type} {R : α → β → Prop} {xs : List α} {ys : List β}
    (h : List.Forall₂ R xs ys) : ∀ y ∈ ys, ∃ x ∈ xs, R x y := by
  induction h with
  | nil => exact List.forall_mem_nil _
  | cons hxy _ ih =>
    refine List.forall_mem_cons.2 ⟨⟨_, List.mem_cons_self, hxy⟩, fun y hy => ?_⟩
    obtain ⟨x, hx, hxy⟩ := ih y hy
    exact ⟨x, List.mem_cons_of_mem _ hx, hxy⟩

theorem Signature.ofDecl?_eq_none {d : Decl} (h : d.isFunction = false) : ofDecl? d = none := by
  unfold Decl.isFunction at h
  unfold ofDecl?
  split
  · next heq => simp [heq] at h
  · rfl

theorem Signature.of_ofDecl? {d : Decl} {s : Signature} (h : ofDecl? d = some s) :
    d.isFunction ∧ s.result = d.scalar := by
  unfold ofDecl? at h
  split at h
  · next heq =>
    cases h
    exact ⟨by simp [Decl.isFunction, heq], rfl⟩
  · cases h

/-- A value is passed to a parameter, or it is a number and there is none. -/
theorem Signature.takesValue_cases {s : Signature} {i : Nat} {type : ScalarType}
    (h : s.takesValue i type) :
    (∃ t, s.param? i = some t ∧ t ≠ .void) ∨ (s.param? i = none ∧ type ≠ .bool) := by
  unfold takesValue at h
  split at h
  · next t ht => exact .inl ⟨t, ht, bne_iff_ne.1 h⟩
  · next hnone =>
    rw [Bool.and_eq_true, bne_iff_ne] at h
    exact .inr ⟨hnone, h.2⟩

/-! ### The two notions of type -/

/-- The conversions and the remainder have their own meanings in a context. -/
structure Context.Converts (ctx : Context) : Prop where
  conversion : ∀ t, t ≠ .void → ctx.signature? t.cName = some ⟨t, .unchecked⟩
  remainder : ctx.signature? remainderFunction = some ⟨.int, .fixed [some .int, some .int]⟩

theorem ScalarType.eq_cName_of_ofCName? {f : String} {t : ScalarType}
    (h : ScalarType.ofCName? f = some t) : f = t.cName := by
  have := List.find?_some h
  simpa using (beq_iff_eq.1 this).symm

@[simp] theorem ScalarType.ofCName?_cName (t : ScalarType) : ofCName? t.cName = some t := by
  cases t <;> decide

namespace Context

variable {ctx : Context}

@[simp] theorem signature?_typeEnv (name : String) :
    ctx.typeEnv.signature? name = ctx.signature? name := rfl

theorem lookup_map_type (vars : List (String × Binding)) (name : String) :
    (vars.map fun (x, b) => (x, b.type)).lookup name = (vars.lookup name).map Binding.type := by
  induction vars with
  | nil => rfl
  | cons entry rest ih =>
    rw [List.map_cons, List.lookup_cons, List.lookup_cons, ih]
    cases name == entry.1 <;> rfl

theorem variableType_eq {name : String} {b : Binding} (h : ctx.binding? name = some b) :
    ctx.typeEnv.variableType name = b.type := by
  rw [TypeEnv.variableType, typeEnv, lookup_map_type]
  change ((ctx.binding? name).map Binding.type).getD .float = b.type
  rw [h]
  rfl

theorem binding?_of_cell? {name : String} {c : Cell} (h : ctx.cell? name = some c) :
    ∃ b, ctx.binding? name = some b ∧ b.isArray = false ∧ c = b.cell := by
  obtain ⟨b, hb, h⟩ := Option.bind_eq_some_iff.1 h
  by_cases hcell : b.isArray || b.isFunction
  · simp only [hcell, if_true] at h
    cases h
  · rw [if_neg hcell] at h
    rw [Bool.not_eq_true, Bool.or_eq_false_iff] at hcell
    exact ⟨b, hb, hcell.1, (Option.some.inj h).symm⟩

theorem exists_id_of_array? {a : Expr} {b : Binding} (h : ctx.array? a = some b) :
    ∃ name c, a = .id name c ∧ ctx.binding? name = some b := by
  cases a with
  | id name c =>
    refine ⟨name, c, rfl, ?_⟩
    exact (Option.filter_eq_some_iff.1 h).1
  | _ => cases h

end Context

/-- The type that coercions are found by: that of C, or a truth value for an integer of C. -/
def ScalarType.Refines (t c : ScalarType) : Prop :=
  t = c ∨ (t = .bool ∧ c = .int)

namespace ScalarType

/-- The common type of numbers and truth values is `float` if one of them is. -/
theorem arithmetic_eq {t t' : ScalarType} (h : t ≠ .void) (h' : t' ≠ .void) :
    arithmetic t t' = if t = .float ∨ t' = .float then .float else .int := by
  cases t <;> cases t' <;> first | contradiction | rfl

theorem arithmetic_eq_or {t t' : ScalarType} (h : t ≠ .void) (h' : t' ≠ .void) :
    arithmetic t t' = .int ∨ arithmetic t t' = .float := by
  rw [arithmetic_eq h h']
  split_ifs
  · exact .inr rfl
  · exact .inl rfl

theorem arithmetic_ne_bool (s t : ScalarType) : arithmetic s t ≠ .bool := by
  cases s <;> cases t <;> decide

theorem unify_self (t : ScalarType) : unify t t = t := by
  simp [unify]

theorem unify_ne_void {s t : ScalarType} (hs : s ≠ .void) (ht : t ≠ .void) :
    unify s t ≠ .void := by
  cases s <;> cases t <;> first | contradiction | decide

namespace Refines

variable {t c t' c' : ScalarType}

theorem eq_void_iff (h : t.Refines c) : t = .void ↔ c = .void := by
  rcases h with rfl | ⟨rfl, rfl⟩ <;> simp

theorem eq_float_iff (h : t.Refines c) : t = .float ↔ c = .float := by
  rcases h with rfl | ⟨rfl, rfl⟩ <;> simp

/-- Two truth values unify to a truth value, which is an integer in C. -/
theorem unify (h : t.Refines c) (h' : t'.Refines c') (hc : c ≠ .void) (hc' : c' ≠ .void) :
    (ScalarType.unify t t').Refines (if c = .float ∨ c' = .float then .float else .int) := by
  simp only [← h.eq_float_iff, ← h'.eq_float_iff]
  have ht := mt h.eq_void_iff.1 hc
  have ht' := mt h'.eq_void_iff.1 hc'
  cases t <;> cases t' <;>
    first | contradiction | exact .inl rfl | exact .inr ⟨rfl, rfl⟩

end Refines

end ScalarType

/-- The common type of two types is its own common type. -/
theorem Expr.operandType_self (op : BinaryOp) {s t : ScalarType} (hs : s ≠ .void) (ht : t ≠ .void) :
    operandType op s t ≠ .void ∧
      operandType op (operandType op s t) (operandType op s t) = operandType op s t ∧
      op.resultType (operandType op s t) (operandType op s t) = op.resultType s t := by
  cases op <;> cases s <;> cases t <;> first | contradiction | decide

@[simp] theorem Expr.coerce_self (e : Expr) (t : ScalarType) : e.coerce t t = pure e := by
  simp [coerce]

/-- The type that the operand of a unary operator is converted to. -/
def UnaryOp.operandType (op : UnaryOp) (s : ScalarType) : ScalarType :=
  match op with
  | .not => .bool
  | .bitNot => .int
  | .neg | .plus => if s = .bool then .int else s
  | .preInc | .preDec | .postInc | .postDec => s

theorem UnaryOp.operandType_self (op : UnaryOp) {s : ScalarType} (hs : s ≠ .void) :
    op.operandType s ≠ .void ∧ op.operandType (op.operandType s) = op.operandType s ∧
      op.resultType (op.operandType s) = op.resultType s := by
  cases op <;> cases s <;> first | contradiction | decide

theorem Expr.coerceOperand_eq (op : UnaryOp) (s : ScalarType) (e : Expr) :
    e.coerceOperand op s = e.coerce s (op.operandType s) := by
  cases op with
  | not | bitNot => rfl
  | neg | plus =>
    simp only [coerceOperand, UnaryOp.operandType]
    split_ifs <;> simp
  | preInc | preDec | postInc | postDec => simp [coerceOperand, UnaryOp.operandType]

theorem BinaryOp.resultType_arithmetic (op : BinaryOp) {s t : ScalarType} (hs : s ≠ .void)
    (ht : t ≠ .void) :
    op.resultType (.arithmetic s t) (.arithmetic s t) = op.resultType s t := by
  rcases ScalarType.arithmetic_eq_or hs ht with h | h <;> cases op <;>
    first | rfl | (rw [h]; exact h.symm)

theorem BinaryOp.resultType_comparison {op : BinaryOp} (h : op.isComparison) (s t : ScalarType) :
    op.resultType s t = .bool := by
  cases op <;> first | rfl | cases h

theorem Expr.operandType_truth {op : BinaryOp} (h : op.isComparison) :
    operandType op .bool .bool = .bool := by
  cases op <;> first | rfl | cases h

/-- Operands are converted to their arithmetic type, unless two truth values are compared. -/
theorem Expr.operandType_eq_arithmetic {op : BinaryOp} {s t : ScalarType}
    (hlogical : op.isLogical = false) (hs : s ≠ .void) (ht : t ≠ .void)
    (hbits : op.isBitwise → s ≠ .float ∧ t ≠ .float)
    (htruth : ¬(op.isComparison ∧ s = .bool ∧ t = .bool)) :
    operandType op s t = .arithmetic s t := by
  unfold operandType
  rw [if_neg (by simp [hlogical])]
  split_ifs with hbitwise hcomparison
  · have h := hbits hbitwise
    rw [ScalarType.arithmetic_eq hs ht, if_neg (by simp [h.1, h.2])]
  · have h : ¬(s = .bool ∧ t = .bool) := fun h => htruth ⟨hcomparison, h⟩
    cases s <;> cases t <;> first | contradiction | rfl
  · rfl

theorem BinaryOp.takes_iff {op : BinaryOp} {l r : ScalarType} :
    op.takes l r ↔ l ≠ .void ∧ r ≠ .void ∧
      ((op.isBitwise ∨ op = .mod) → l ≠ .float ∧ r ≠ .float) := by
  simp only [takes, Bool.and_eq_true, bne_iff_ne, Bool.or_eq_true, Bool.not_eq_true',
    Bool.or_eq_false_iff, beq_eq_false_iff_ne]
  grind

theorem BinaryOp.takes_refines {op : BinaryOp} {t c t' c' : ScalarType} (h : t.Refines c)
    (h' : t'.Refines c') : op.takes t t' ↔ op.takes c c' := by
  simp only [takes_iff, ne_eq, h.eq_void_iff, h'.eq_void_iff, h.eq_float_iff, h'.eq_float_iff]

theorem BinaryOp.resultType_refines {op : BinaryOp} {t c t' c' : ScalarType} (h : t.Refines c)
    (h' : t'.Refines c') (htakes : op.takes c c') :
    (op.resultType t t').Refines (op.ctype c c') := by
  obtain ⟨hc, hc', -⟩ := takes_iff.1 htakes
  have harith := ScalarType.arithmetic_eq (mt h.eq_void_iff.1 hc) (mt h'.eq_void_iff.1 hc')
  simp only [h.eq_float_iff, h'.eq_float_iff] at harith
  -- Truth values come from connectives and comparisons; the bits are those of integers.
  cases op <;> first | exact .inr ⟨rfl, rfl⟩ | exact .inl rfl | exact .inl harith

theorem UnaryOp.resultType_refines {op : UnaryOp} {t c : ScalarType} (h : t.Refines c) :
    (op.resultType t).Refines (op.ctype c) := by
  rcases h with rfl | ⟨rfl, rfl⟩
  · cases op <;> first | exact .inr ⟨rfl, rfl⟩ | exact .inl rfl
  · cases op <;> first | exact .inr ⟨rfl, rfl⟩ | exact .inl rfl

namespace Expr

variable {quiet : List String} {ctx : Context}

mutual

/-- The type of a well-typed expression is that of C, or a truth value for an integer of C. -/
theorem typeIn_refines (hconv : ctx.Converts) (e : Expr) (h : e.wellTyped quiet ctx) :
    (e.typeIn ctx.typeEnv).Refines (e.ctype ctx) := by
  cases e with
  | id name c =>
    obtain ⟨cell, hcell⟩ := Option.isSome_iff_exists.1 h
    obtain ⟨b, hb, -⟩ := Context.binding?_of_cell? hcell
    left
    rw [typeIn, ctype, Context.variableType_eq hb, hb]
    rfl
  | literal value c => exact .inl rfl
  | binary op l r c =>
    simp only [wellTyped, Bool.and_eq_true] at h
    exact BinaryOp.resultType_refines (typeIn_refines hconv l h.1.1)
      (typeIn_refines hconv r h.1.2) h.2
  | unary op e c =>
    simp only [wellTyped, Bool.and_eq_true] at h
    exact UnaryOp.resultType_refines (typeIn_refines hconv e h.1.1)
  | assign op t v c =>
    simp only [wellTyped, Bool.and_eq_true] at h
    exact typeIn_refines hconv t h.1.1.1.1.1
  | ternary p t e c =>
    -- In C two truth values are joined to an integer, and here they stay truth values.
    simp only [wellTyped, Bool.and_eq_true, bne_iff_ne] at h
    obtain ⟨⟨⟨⟨-, ht⟩, htvoid⟩, he⟩, hevoid⟩ := h
    rw [typeIn, ctype, if_neg htvoid]
    exact (typeIn_refines hconv t ht).unify (typeIn_refines hconv e he) htvoid hevoid
  | call f args c =>
    left
    rw [typeIn, ctype, TypeEnv.resultType, Context.signature?_typeEnv]
    rw [wellTyped] at h
    split at h
    · next t ht =>
      obtain rfl := ScalarType.eq_cName_of_ofCName? ht
      simp only [Bool.and_eq_true, bne_iff_ne] at h
      rw [hconv.conversion t h.1.1]
      rfl
    · split at h
      · next s hs =>
        rw [hs]
        rfl
      · cases h
  | cast type e c => exact .inl rfl
  | index a i c =>
    simp only [wellTyped, Bool.and_eq_true] at h
    obtain ⟨b, hb⟩ := Option.isSome_iff_exists.1 h.1.1.1
    obtain ⟨name, c', rfl, hname⟩ := Context.exists_id_of_array? hb
    left
    rw [typeIn, typeIn, ctype, ctype, Context.variableType_eq hname, hname]
    rfl
  | initList items c => cases h
  | comma items c =>
    simp only [wellTyped, Bool.and_eq_true] at h
    exact lastTypeIn_refines hconv items h.2

theorem lastTypeIn_refines (hconv : ctx.Converts) (items : List Expr)
    (h : wellTypedList quiet ctx items) :
    (lastTypeIn ctx.typeEnv items).Refines (lastCtype ctx items) := by
  match items with
  | [] => exact .inl rfl
  | [e] =>
    simp only [wellTypedList, Bool.and_eq_true] at h
    exact typeIn_refines hconv e h.1.1
  | e :: e' :: rest =>
    rw [wellTypedList, Bool.and_eq_true] at h
    exact lastTypeIn_refines hconv (e' :: rest) h.2

end

end Expr

end MathKernel
