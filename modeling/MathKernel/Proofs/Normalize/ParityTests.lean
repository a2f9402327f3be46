import Mathlib.Algebra.Ring.Int.Parity
import MathKernel.Proofs.Normalize.FoldedIdioms
import MathKernel.Proofs.Normalize.TruthValues

/-!
# Tests of the lowest bit

A test of the lowest bit is folded into a call whose result is a truth value, where it was an
integer. Where true and false are identified with one and zero, an expression evaluates as its
folded form does. The conversions that are made for the two forms differ, as the folded test has
another type.

## Main definitions

* `parity`, `KnowsParity`, `FoldsParity` — what the folded call does, and who knows it
* `Expr.foldedOdd` — an expression with its tests folded
* `ScalarType.LoweredTo` — what becomes of a type when tests are folded

## Main results

* `Expr.evalAlike_isOdd` — the folded call and the test
* `Expr.standsFor_foldedOdd` — expressions and their folded forms
* `Expr.loweredTo_foldedOdd` — the types of folded expressions
-/

namespace MathKernel

open MathKernel.Action Scalar

/-! ### The lowest bit -/

/-- Whether an integer is odd, as a called function. -/
def parity : List Argument → Action Scalar
  | [.scalar (.int n)] => pure (.bool (Odd n))
  | _ => .stuck

/-- The folded call has its own meaning: it is declared, and says whether an integer is odd. -/
structure KnowsParity (calls : Calls) (ctx : Context) : Prop where
  signature : ctx.signature? "is_odd" = some ⟨.bool, .fixed [some .int]⟩
  call : calls "is_odd" = parity

/-- The environment of a conversion knows the folded call and is part of the context in which the
converted code is run. -/
structure FoldsParity (calls : Calls) (env : TypeEnv) (ctx : Context) : Prop
    extends env.IsPartOf ctx where
  converts : env.Converts
  signature : env.signature? "is_odd" = some ⟨.bool, .fixed [some .int]⟩
  call : calls "is_odd" = parity

theorem KnowsParity.of_functions_eq {calls : Calls} {ctx ctx' : Context}
    (h : KnowsParity calls ctx) (heq : ctx'.functions = ctx.functions) : KnowsParity calls ctx' :=
  ⟨by rw [Context.signature?, heq]; exact h.signature, h.call⟩

namespace FoldsParity

/-- The types of a context are an environment in which all its functions are known. -/
theorem typeEnv {calls : Calls} {ctx : Context} (hconv : ctx.Converts)
    (hodd : KnowsParity calls ctx) : FoldsParity calls ctx.typeEnv ctx where
  vars := rfl
  functions name s hs := by rwa [← Context.signature?_typeEnv]
  converts := hconv.typeEnv
  signature := by
    rw [Context.signature?_typeEnv]
    exact hodd.signature
  call := hodd.call

variable {calls : Calls} {env : TypeEnv} {ctx : Context} (h : FoldsParity calls env ctx)
include h

theorem converts_context : ctx.Converts where
  conversion t ht := h.functions _ _ (h.converts.conversion t ht)
  remainder := h.functions _ _ h.converts.remainder

theorem knowsParity : KnowsParity calls ctx :=
  ⟨h.functions _ _ h.signature, h.call⟩

theorem resultType : env.resultType "is_odd" = .bool := by
  rw [TypeEnv.resultType, h.signature]
  rfl

end FoldsParity

/-- The lowest bit of an integer says whether it is odd. -/
theorem Int.land_one_eq (n : Int) : Int.land n 1 = bit (Odd n) := by
  have hzero : Int.land n.div2 0 = 0 := by
    cases n.div2 with
    | ofNat m => exact congrArg Int.ofNat (Nat.and_zero m)
    | negSucc m => exact congrArg Int.ofNat (by simp [Nat.ldiff])
  have hland : Int.land n 1 = Int.bit n.bodd 0 := by
    have h := Int.land_bit n.bodd n.div2 true 0
    rwa [Int.bit_decomp, Bool.and_true, hzero] at h
  have hodd : Odd n ↔ n.bodd := by
    have h := Int.bodd_add_div2 n
    rw [Int.odd_iff]
    cases hbit : n.bodd <;> simp only [hbit, cond_true, cond_false] at h <;> simp <;> omega
  rw [hland]
  cases h : n.bodd <;> simp [hodd, h, Int.bit_val, bit]

namespace Expr

variable {calls : Calls} {ctx : Context}

/-! ### Folding -/

/-- The test of the lowest bit that a node is, as a call, or else the node. -/
def oddNode : Expr → Expr :=
  idiomNode oddOperand? "is_odd"

/-- The expression with its tests of the lowest bit folded. -/
def foldedOdd (e : Expr) : Expr :=
  e.rebuild oddNode

section Nodes

variable {c : Coord}

@[simp] theorem foldedOdd_id (name : String) : (id name c).foldedOdd = id name c := rfl

@[simp] theorem foldedOdd_literal (value : Literal) :
    (literal value c).foldedOdd = literal value c := rfl

theorem foldedOdd_binary (op : BinaryOp) (l r : Expr) :
    (binary op l r c).foldedOdd = oddNode (binary op l.foldedOdd r.foldedOdd c) := rfl

@[simp] theorem foldedOdd_unary (op : UnaryOp) (e : Expr) :
    (unary op e c).foldedOdd = unary op e.foldedOdd c := rfl

@[simp] theorem foldedOdd_assign (op : AssignOp) (t v : Expr) :
    (assign op t v c).foldedOdd = assign op t.foldedOdd v.foldedOdd c := rfl

@[simp] theorem foldedOdd_ternary (p t e : Expr) :
    (ternary p t e c).foldedOdd = ternary p.foldedOdd t.foldedOdd e.foldedOdd c := rfl

@[simp] theorem foldedOdd_call (f : String) (args : List Expr) :
    (call f args c).foldedOdd = call f (args.map foldedOdd) c :=
  rebuild_call oddNode args c f

@[simp] theorem foldedOdd_cast (type : ScalarType) (e : Expr) :
    (cast type e c).foldedOdd = cast type e.foldedOdd c := rfl

@[simp] theorem foldedOdd_index (a i : Expr) :
    (index a i c).foldedOdd = index a.foldedOdd i.foldedOdd c := rfl

@[simp] theorem foldedOdd_initList (items : List Expr) :
    (initList items c).foldedOdd = initList (items.map foldedOdd) c :=
  rebuild_initList oddNode items c

@[simp] theorem foldedOdd_comma (items : List Expr) :
    (comma items c).foldedOdd = comma (items.map foldedOdd) c :=
  rebuild_comma oddNode items c

end Nodes

/-- A node is a test of the lowest bit of one operand if the other is the literal one. -/
theorem oddNode_binary (op : BinaryOp) (l r : Expr) (c : Coord) :
    oddNode (binary op l r c) = binary op l r c ∨
      op = .bitAnd ∧ r.intLiteral? = some 1 ∧ oddNode (binary op l r c) = call "is_odd" [l] c ∨
      op = .bitAnd ∧ l.intLiteral? = some 1 ∧ oddNode (binary op l r c) = call "is_odd" [r] c := by
  cases op with
  | bitAnd =>
    by_cases hr : r.intLiteral? = some 1
    · exact .inr (.inl ⟨rfl, hr, by simp [oddNode, idiomNode, foldIdiom?, oddOperand?, hr, coord]⟩)
    · by_cases hl : l.intLiteral? = some 1
      · exact .inr (.inr ⟨rfl, hl, by
          simp [oddNode, idiomNode, foldIdiom?, oddOperand?, hr, hl, coord]⟩)
      · exact .inl (by simp [oddNode, idiomNode, foldIdiom?, oddOperand?, hr, hl])
  | _ => exact .inl rfl

/-- Only literals are folded into literals. -/
theorem eq_of_foldedOdd_intLiteral? {e : Expr} {n : Int} (h : e.foldedOdd.intLiteral? = some n) :
    ∃ value c, e = literal value c ∧ value.scalar? = some (.int n) ∧ value.kind.scalar = .int := by
  cases e with
  | literal value c =>
    refine ⟨value, c, rfl, ?_⟩
    obtain ⟨kind, text⟩ := value
    cases kind with
    | int => exact ⟨congrArg (Option.map Scalar.int) (Literal.integer?_of_readInt? h), rfl⟩
    | char =>
      obtain ⟨code, hcode, rfl⟩ := Option.map_eq_some_iff.1 h
      refine ⟨?_, rfl⟩
      simp only [Literal.scalar?, hcode]
      rfl
    | float | string => cases h
  | binary op l r c =>
    rw [foldedOdd_binary] at h
    rcases oddNode_binary op l.foldedOdd r.foldedOdd c with heq | ⟨-, -, heq⟩ | ⟨-, -, heq⟩ <;>
      rw [heq] at h <;> cases h
  | call f args c =>
    rw [foldedOdd_call] at h
    cases h
  | initList items c =>
    rw [foldedOdd_initList] at h
    cases h
  | comma items c =>
    rw [foldedOdd_comma] at h
    cases h
  | _ => cases h

/-- An operation and its folded form. One operand of a test is a literal. -/
theorem foldedOdd_binary_cases (op : BinaryOp) (l r : Expr) (c : Coord) :
    (binary op l r c).foldedOdd = binary op l.foldedOdd r.foldedOdd c ∨
      (∃ value c', op = .bitAnd ∧ r = literal value c' ∧ value.scalar? = some (.int 1) ∧
        value.kind.scalar = .int ∧ (binary op l r c).foldedOdd = call "is_odd" [l.foldedOdd] c) ∨
      ∃ value c', op = .bitAnd ∧ l = literal value c' ∧ value.scalar? = some (.int 1) ∧
        value.kind.scalar = .int ∧ (binary op l r c).foldedOdd = call "is_odd" [r.foldedOdd] c := by
  rw [foldedOdd_binary]
  rcases oddNode_binary op l.foldedOdd r.foldedOdd c with heq | ⟨hop, hone, heq⟩ | ⟨hop, hone, heq⟩
  · exact .inl heq
  · obtain ⟨value, c', hr, hvalue, htype⟩ := eq_of_foldedOdd_intLiteral? hone
    exact .inr (.inl ⟨value, c', hop, hr, hvalue, htype, heq⟩)
  · obtain ⟨value, c', hl, hvalue, htype⟩ := eq_of_foldedOdd_intLiteral? hone
    exact .inr (.inr ⟨value, c', hop, hl, hvalue, htype, heq⟩)

theorem operandBelow_oddOperand? : OperandBelow oddOperand? := by
  intro e x h s hs
  unfold oddOperand? at h
  split at h
  · split_ifs at h <;> cases h <;> exact List.mem_flatMap.2 ⟨x, by simp [parts], hs⟩
  · cases h

/-! ### Side effects of folded expressions -/

/-- Only tests are folded. -/
theorem foldedOdd_cases (e : Expr) :
    e.foldedOdd = e.withParts (e.parts.map foldedOdd) ∨
      ∃ x value c c',
        (e = binary .bitAnd x (literal value c') c ∨ e = binary .bitAnd (literal value c') x c) ∧
          e.foldedOdd = call "is_odd" [x.foldedOdd] c := by
  cases e with
  | binary op l r c =>
    rcases foldedOdd_binary_cases op l r c with heq | ⟨value, c', rfl, rfl, -, -, heq⟩ |
      ⟨value, c', rfl, rfl, -, -, heq⟩
    · exact .inl heq
    · exact .inr ⟨l, value, c, c', .inl rfl, heq⟩
    · exact .inr ⟨r, value, c, c', .inr rfl, heq⟩
  | call f args c => exact .inl (foldedOdd_call f args)
  | initList items c => exact .inl (foldedOdd_initList items)
  | comma items c => exact .inl (foldedOdd_comma items)
  | _ => exact .inl rfl

/-- Folding keeps side effects. -/
theorem hasSideEffects_foldedOdd (e : Expr) : e.foldedOdd.hasSideEffects = e.hasSideEffects := by
  induction e using parts_induction with
  | h e ih =>
    rcases foldedOdd_cases e with heq | ⟨x, value, c, c', rfl | rfl, heq⟩ <;> rw [heq]
    · refine hasSideEffects_congr ?_ ?_
      · cases e with
        | unary op e c => cases op <;> rfl
        | _ => rfl
      · rw [parts_withParts (List.length_map _), List.any_map, Bool.eq_iff_iff, List.any_eq_true,
          List.any_eq_true]
        refine exists_congr fun part => and_congr_right fun hpart => ?_
        rw [Function.comp_apply, ih part hpart]
    · have hx := ih x (by simp [parts])
      have hliteral : (literal value c').hasSideEffects = false := rfl
      exact hasSideEffects_congr rfl (by simp [parts, hx, hliteral])
    · have hx := ih x (by simp [parts])
      have hliteral : (literal value c').hasSideEffects = false := rfl
      exact hasSideEffects_congr rfl (by simp [parts, hx, hliteral])

/-! ### What folded expressions name -/

/-- A folded expression is a place, a text or a braced list where the expression is. -/
theorem shape_foldedOdd (e : Expr) : e.foldedOdd.isPlace = e.isPlace ∧
    e.foldedOdd.text? = e.text? ∧ e.foldedOdd.isBraced = e.isBraced := by
  rcases foldedOdd_cases e with heq | ⟨x, value, c, c', rfl | rfl, heq⟩ <;> rw [heq]
  · cases e <;> exact ⟨rfl, rfl, rfl⟩
  · exact ⟨rfl, rfl, rfl⟩
  · exact ⟨rfl, rfl, rfl⟩

theorem isPlace_foldedOdd (e : Expr) : e.foldedOdd.isPlace = e.isPlace :=
  (shape_foldedOdd e).1

theorem text?_foldedOdd (e : Expr) : e.foldedOdd.text? = e.text? :=
  (shape_foldedOdd e).2.1

theorem isBraced_foldedOdd (e : Expr) : e.foldedOdd.isBraced = e.isBraced :=
  (shape_foldedOdd e).2.2

theorem array?_foldedOdd (e : Expr) : ctx.array? e.foldedOdd = ctx.array? e := by
  cases h : e.isPlace with
  | false => rw [array?_of_isPlace h, array?_of_isPlace ((isPlace_foldedOdd e).trans h)]
  | true =>
    cases e with
    | id | index => rfl
    | _ => cases h

/-! ### Folded tests -/

/-- An array or a text has no value. -/
theorem eval_of_not_value {e : Expr} (h : (ctx.array? e).isSome ∨ e.text?.isSome) (rules : Rules) :
    e.eval rules calls ctx = .stuck := by
  cases e with
  | id name c =>
    obtain ⟨b, hb⟩ := Option.isSome_iff_exists.1 (h.resolve_right (by simp [text?]))
    obtain ⟨hname, harray⟩ := Option.filter_eq_some_iff.1 hb
    have hcell : ctx.cell? name = none := by
      simp only [Context.cell?, hname, Option.bind_some, harray, Bool.true_or, if_true]
    rw [eval, hcell]
    rfl
  | literal value c =>
    obtain ⟨text, htext⟩ := Option.isSome_iff_exists.1 (h.resolve_left (by simp [Context.array?]))
    obtain ⟨kind, text⟩ := value
    cases kind with
    | string => rfl
    | _ => cases htext
  | _ => simp [Context.array?, text?] at h

theorem eval_literal {value : Literal} {v : Scalar} (h : value.scalar? = some v) (rules : Rules)
    (c : Coord) : (literal value c).eval rules calls ctx = pure v := by
  rw [eval, h]
  rfl

/-- The lowest bit of a value, if it is no floating number. -/
theorem alike_parity (v : Scalar) :
    (ofOption (Rules.identified.argument? (some .int) v) >>= fun w =>
        parity [.scalar w] >>= fun v => if v.type = .bool then pure v else .stuck).Alike
      (ofOption (Rules.identified.binary .bitAnd v (.int 1))) := by
  have hbit (n : Int) :
      (pure (.bool (Odd n)) : Action Scalar).Alike (pure (.int (Int.land n 1))) := by
    rw [Int.land_one_eq]
    exact rfl
  cases v with
  | int n => exact hbit n
  | bool b => exact hbit (bit b)
  | float | void => exact .refl _

theorem binary_bitAnd_comm (v : Scalar) :
    Rules.identified.binary .bitAnd (.int 1) v = Rules.identified.binary .bitAnd v (.int 1) := by
  have hland (n : Int) : Int.land 1 n = Int.land n 1 := by
    cases n with
    | ofNat m => exact congrArg Int.ofNat (Nat.land_comm 1 m)
    | negSucc m => rfl
  cases v with
  | int n => exact congrArg (some ∘ Scalar.int) (hland n)
  | bool b => exact congrArg (some ∘ Scalar.int) (hland (bit b))
  | float | void => rfl

/-- The folded call looks at the lowest bit of its argument. -/
theorem evalAlike_isOdd (hodd : KnowsParity calls ctx) (e : Expr) (c : Coord) :
    ((call "is_odd" [e] c).eval .identified calls ctx).Alike
      (e.eval .identified calls ctx >>= fun v =>
        ofOption (Rules.identified.binary .bitAnd v (.int 1))) := by
  have happly (args : List Argument) : ctx.apply calls "is_odd" args =
      parity args >>= fun v => if v.type = .bool then pure v else .stuck := by
    have hname : ScalarType.ofCName? "is_odd" = none := by decide
    have hremainder : "is_odd" ≠ remainderFunction := by decide
    simp only [Context.apply, hname, if_neg hremainder, hodd.signature, hodd.call]
  simp only [eval, evalArgs, happly]
  -- An array or a text has no lowest bit: both sides get stuck.
  cases harray : ctx.array? e with
  | some b =>
    rw [eval_of_not_value (.inl (by simp [harray]))]
    simp only [Context.argument, harray]
    exact .refl _
  | none =>
    cases htext : e.text? with
    | some text =>
      rw [eval_of_not_value (.inr (by simp [htext]))]
      simp only [Context.argument, harray, htext]
      exact .refl _
    | none =>
      simp only [Context.argument, harray, htext, bind_assoc, pure_bind, hodd.signature]
      exact alike_bind _ fun v => alike_parity v

/-- The folded call does what the test does, on either side of whose operator the one stands. -/
theorem evalAlike_test (hodd : KnowsParity calls ctx) {e e' one : Expr} (h : e.Alike calls ctx e')
    (hone : one.eval .identified calls ctx = pure (.int 1)) (c c' : Coord) :
    EvalAlike calls ctx (call "is_odd" [e] c) (binary .bitAnd e' one c') ∧
      EvalAlike calls ctx (call "is_odd" [e] c) (binary .bitAnd one e' c') := by
  have hcall := (Alike.call c c (.cons h .nil) "is_odd").trans (evalAlike_isOdd hodd e' c)
  constructor
  · refine hcall.trans (.of_eq ?_)
    rw [eval_binary rfl]
    simp only [hone, pure_bind]
  · refine hcall.trans (.of_eq ?_)
    rw [eval_binary rfl]
    simp only [hone, pure_bind, binary_bitAnd_comm]

/-! ### Folded expressions -/

mutual

/-- An expression and its folded form are alike. -/
theorem standsFor_foldedOdd (hodd : KnowsParity calls ctx) (e : Expr) :
    e.foldedOdd.StandsFor calls ctx e := by
  cases e with
  | id n c | literal v c => exact .refl _
  | binary op l r c =>
    have hl := standsFor_foldedOdd hodd l
    have hr := standsFor_foldedOdd hodd r
    rcases foldedOdd_binary_cases op l r c with heq | ⟨value, c', rfl, rfl, hvalue, -, heq⟩ |
      ⟨value, c', rfl, rfl, hvalue, -, heq⟩
    · rw [heq]
      exact (hl.alike.eval.binary c c hr.alike.eval op).standsFor rfl rfl rfl
    · rw [heq]
      have htest := evalAlike_test hodd hl.alike (eval_literal hvalue .identified c') c c
      exact htest.1.standsFor rfl rfl rfl
    · rw [heq]
      have htest := evalAlike_test hodd hr.alike (eval_literal hvalue .identified c') c c
      exact htest.2.standsFor rfl rfl rfl
  | unary op e c =>
    have he := standsFor_foldedOdd hodd e
    exact (he.alike.eval.unary c c fun _ => he.cell).standsFor rfl rfl rfl
  | assign op t v c =>
    have ht := standsFor_foldedOdd hodd t
    have hv := standsFor_foldedOdd hodd v
    exact (EvalAlike.assign c c ht.cell hv.alike.eval op).standsFor rfl rfl rfl
  | ternary p t e c =>
    have hp := standsFor_foldedOdd hodd p
    have ht := standsFor_foldedOdd hodd t
    have he := standsFor_foldedOdd hodd e
    exact (hp.alike.eval.ternary c c ht.alike.eval he.alike.eval).standsFor rfl rfl rfl
  | call f args c =>
    rw [foldedOdd_call]
    exact (Alike.call c c (forall₂_alike_foldedOdd hodd args) f).standsFor rfl rfl rfl
  | cast type e c =>
    have he := standsFor_foldedOdd hodd e
    exact (he.alike.eval.cast c c type).standsFor rfl rfl rfl
  | index a i c =>
    have ha := standsFor_foldedOdd hodd a
    have hi := standsFor_foldedOdd hodd i
    exact ha.alike.index c c hi.alike
  | initList items c =>
    rw [foldedOdd_initList]
    exact EvalAlike.standsFor (.of_eq rfl) rfl rfl rfl
  | comma items c =>
    rw [foldedOdd_comma]
    have hitems := (forall₂_alike_foldedOdd hodd items).imp fun _ _ h => h.eval
    exact (EvalAlike.comma c c hitems).standsFor rfl rfl rfl

theorem forall₂_alike_foldedOdd (hodd : KnowsParity calls ctx) (items : List Expr) :
    List.Forall₂ (Alike calls ctx) (items.map foldedOdd) items := by
  cases items with
  | nil => exact .nil
  | cons e rest =>
    have he := standsFor_foldedOdd hodd e
    exact .cons he.alike (forall₂_alike_foldedOdd hodd rest)

end

end Expr

/-! ### Types of folded expressions -/

/-- What becomes of a type when tests are folded: it stays, or a truth value takes the place of an
integer. -/
def ScalarType.LoweredTo (t t' : ScalarType) : Prop :=
  t' = t ∨ t = .int ∧ t' = .bool

namespace ScalarType.LoweredTo

variable {s s' t t' : ScalarType}

theorem refl (t : ScalarType) : t.LoweredTo t :=
  .inl rfl

/-- A common type stays, or it is that of two truth values. -/
theorem unify (h : s.LoweredTo s') (h' : t.LoweredTo t') :
    .unify s' t' = unify s t ∨
      unify s t = .int ∧ .unify s' t' = bool ∧ s' = .bool ∧ t' = .bool := by
  rcases h with rfl | ⟨rfl, rfl⟩ <;> rcases h' with rfl | ⟨rfl, rfl⟩ <;>
    first
    | exact .inl rfl
    | cases s' <;> decide
    | cases t' <;> decide
    | decide

theorem arithmetic (h : s.LoweredTo s') (h' : t.LoweredTo t') :
    arithmetic s' t' = .arithmetic s t := by
  rcases h with rfl | ⟨rfl, rfl⟩ <;> rcases h' with rfl | ⟨rfl, rfl⟩ <;>
    first
    | rfl
    | cases s' <;> rfl
    | cases t' <;> rfl

theorem operandType (op : BinaryOp) (h : s.LoweredTo s') (h' : t.LoweredTo t') :
    Expr.operandType op s' t' = Expr.operandType op s t ∨
      op.isComparison ∧ Expr.operandType op s t = .int ∧ Expr.operandType op s' t' = .bool ∧
        s' = .bool ∧ t' = .bool := by
  unfold Expr.operandType
  split_ifs with hlogical hbits hcompare
  · exact .inl rfl
  · exact .inl rfl
  · exact (h.unify h').imp_right fun hlowered => ⟨hcompare, hlowered⟩
  · exact .inl (h.arithmetic h')

theorem resultType (op : BinaryOp) (h : s.LoweredTo s') (h' : t.LoweredTo t') :
    op.resultType s' t' = op.resultType s t := by
  unfold BinaryOp.resultType
  rw [h.arithmetic h']

theorem unary (op : UnaryOp) (h : t.LoweredTo t') :
    (op.resultType t).LoweredTo (op.resultType t') ∧
      (op.operandType t' = op.operandType t ∨
        op.operandType t = .int ∧ op.operandType t' = .bool ∧ t' = .bool) := by
  rcases h with rfl | ⟨rfl, rfl⟩
  · exact ⟨refl _, .inl rfl⟩
  · unfold LoweredTo
    cases op <;> decide

end ScalarType.LoweredTo

namespace Expr

variable {env : TypeEnv}

mutual

/-- Folding tests of the lowest bit lowers types. -/
theorem loweredTo_foldedOdd (hodd : env.resultType "is_odd" = .bool) (e : Expr) :
    (e.typeIn env).LoweredTo (e.foldedOdd.typeIn env) := by
  cases e with
  | id n c | literal v c => exact .refl _
  | binary op l r c =>
    rcases foldedOdd_binary_cases op l r c with heq | ⟨value, c', rfl, rfl, -, -, heq⟩ |
      ⟨value, c', rfl, rfl, -, -, heq⟩
    · rw [heq, typeIn, typeIn]
      exact .inl ((loweredTo_foldedOdd hodd l).resultType op (loweredTo_foldedOdd hodd r))
    · rw [heq]
      exact .inr ⟨rfl, hodd⟩
    · rw [heq]
      exact .inr ⟨rfl, hodd⟩
  | unary op e c => exact ((loweredTo_foldedOdd hodd e).unary op).1
  | assign op t v c => exact loweredTo_foldedOdd hodd t
  | ternary p t e c =>
    rcases (loweredTo_foldedOdd hodd t).unify (loweredTo_foldedOdd hodd e) with h | ⟨h, h', -⟩
    · exact .inl h
    · exact .inr ⟨h, h'⟩
  | call f args c =>
    rw [foldedOdd_call]
    exact .refl _
  | cast type e c => exact .refl _
  | index a i c => exact loweredTo_foldedOdd hodd a
  | initList items c =>
    rw [foldedOdd_initList]
    exact .refl _
  | comma items c =>
    rw [foldedOdd_comma]
    exact loweredTo_map_foldedOdd hodd items

theorem loweredTo_map_foldedOdd (hodd : env.resultType "is_odd" = .bool) (items : List Expr) :
    (lastTypeIn env items).LoweredTo (lastTypeIn env (items.map foldedOdd)) := by
  match items with
  | [] => exact .refl _
  | [e] => exact loweredTo_foldedOdd hodd e
  | _ :: e :: rest => exact loweredTo_map_foldedOdd hodd (e :: rest)

end

end Expr

end MathKernel
