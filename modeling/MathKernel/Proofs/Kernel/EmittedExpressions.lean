import MathKernel.Kernel.Emission
import MathKernel.Proofs.Kernel.Extraction
import MathKernel.Proofs.Normalize.Literals
import MathKernel.Proofs.Syntax.Subexpressions

/-!
# Code and text of expressions

The code of an expression is its C text, up to the spelling of equality. Casts, initializer lists
and strings have no code, wherever they stand.

## Main definitions

* `Expr.textWith` — the C text with binary operators spelled in another way
* `BinaryOp.strictSymbol` — the spelling where equality does not convert
* `Literal.IsPlain` — numeric literals whose text is the one that is written
* `Expr.hasCode` — nodes that can be written as code

## Main results

* `Expr.textWith_symbol` — the C spelling gives the C text
* `Expr.emit_yieldsIf` — the code in a family
* `Expr.emit_eq_text` — the code in both families, beside the C text
-/

namespace MathKernel

/-- The spelling of operators in which equality does not convert its operands. -/
def BinaryOp.strictSymbol : BinaryOp → String
  | eq => "==="
  | ne => "!=="
  | op => op.symbol

theorem Family.binarySymbol_shader : Family.shader.binarySymbol = BinaryOp.symbol := by
  funext op
  cases op <;> rfl

theorem Family.binarySymbol_scalar : Family.scalar.binarySymbol = BinaryOp.strictSymbol := by
  funext op
  cases op <;> rfl

/-! ### Computations with one possible result -/

/-- The computation succeeds under the condition, and then gives the value. -/
def YieldsIf {ε α : Type} (x : Except ε α) (p : Prop) (a : α) : Prop :=
  ∀ b, x = .ok b ↔ p ∧ b = a

namespace YieldsIf

variable {ε α β : Type} {x : Except ε α} {p q : Prop} {a : α}

theorem ok (a : α) : YieldsIf (.ok a : Except ε α) True a := by
  intro b
  rw [true_and, Except.ok.injEq, eq_comm]

theorem error {e : ε} : YieldsIf (.error e : Except ε α) False a := by
  simp [YieldsIf]

theorem bind {f : α → Except ε β} {b : β} (hx : YieldsIf x p a) (hf : YieldsIf (f a) q b) :
    YieldsIf (x >>= f) (p ∧ q) b := by
  intro c
  rw [and_assoc, ← hf c]
  constructor
  · intro h
    obtain ⟨found, hfound, h⟩ := Except.bind_eq_ok h
    obtain ⟨hp, rfl⟩ := (hx found).1 hfound
    exact ⟨hp, h⟩
  · rintro ⟨hp, h⟩
    rw [(hx a).2 ⟨hp, rfl⟩]
    exact h

theorem congr (h : YieldsIf x p a) (hpq : q ↔ p) : YieldsIf x q a :=
  fun b => (h b).trans (and_congr_left' hpq.symm)

end YieldsIf

/-! ### Literals -/

namespace Literal

/-- The text of a number is the one that is written for its value: a decimal integer of 64 bits,
or a floating text in its canonical form. Strings are no numbers. -/
def IsPlain (v : Literal) : Prop :=
  match v.kind with
  | .int => ∃ n, InInt64 n ∧ v.text = toString n
  | .float => canonicalFloat? v.text.toList = some v.text.toList
  | .char => False
  | .string => True

/-- The text of a floating literal ends in no suffix once it is written without one. -/
theorem dropFloatSuffix_formatFloat {trimmed : List Char} (hne : trimmed ≠ [])
    (hlast : ∀ c ∈ trimmed.getLast?, isFloatSuffix c = false) :
    dropFloatSuffix (formatFloat (if trimmed.head? = some '.' then '0' :: trimmed else trimmed)) =
      formatFloat (if trimmed.head? = some '.' then '0' :: trimmed else trimmed) := by
  refine dropTrailing_eq_self (getLast?_formatFloat fun c hc => hlast c ?_)
  split_ifs at hc
  · rwa [List.getLast?_cons_of_ne_nil hne] at hc
  · exact hc

/-- A floating text that is written has a point or an exponent. -/
theorem hasPointOrExponent_formatFloat (padded : List Char) :
    hasPointOrExponent (formatFloat padded) = true := by
  unfold formatFloat
  rcases dropWhile_isExponentMark padded with hnone | ⟨rest, hrest⟩
  · have hpoint : '.' ∈ completeMantissa (padded.takeWhile fun c => !isExponentMark c) false := by
      unfold completeMantissa
      split_ifs with hlast hmem
      · exact List.mem_append_left _ (List.mem_of_getLast? hlast)
      · simpa using hmem
      · simp
    rw [hnone]
    exact List.any_eq_true.2 ⟨'.', by simpa using hpoint, rfl⟩
  · rw [hrest]
    exact List.any_eq_true.2 ⟨'e', by simp, rfl⟩

/-- Both families write a floating text in its canonical form as it is. -/
theorem floatLiteral_eq_self (family : Family) {text : String}
    (h : canonicalFloat? text.toList = some text.toList) : family.floatLiteral text = text := by
  rw [canonicalFloat?_eq] at h
  obtain ⟨x, hx, htext⟩ := Option.map_eq_some_iff.1 h
  have hne : dropFloatSuffix text.toList ≠ [] := by
    intro hnil
    rw [readFloat?, hnil] at hx
    cases hx
  have hkept := dropFloatSuffix_formatFloat hne fun c hc => getLast?_dropTrailing hc
  have hpoint := hasPointOrExponent_formatFloat
    (if (dropFloatSuffix text.toList).head? = some '.' then '0' :: dropFloatSuffix text.toList
      else dropFloatSuffix text.toList)
  dsimp only at htext
  rw [htext] at hkept hpoint
  cases family <;> simp [Family.floatLiteral, hkept, hpoint]

/-- A plain literal is written as it stands, unless it is a string. -/
theorem emit_yieldsIf (family : Family) {v : Literal} (h : v.IsPlain) :
    YieldsIf (v.emit family) (v.kind ≠ .string) v.text := by
  obtain ⟨kind, text⟩ := v
  cases kind with
  | int =>
    obtain ⟨n, hn, htext⟩ := h
    dsimp only at htext
    subst htext
    have hcode : Literal.emit family ⟨.int, toString n⟩ = .ok (toString n) := by
      simp only [emit, intValue?, readInt?_toString_of_inInt64 hn]
    rw [hcode]
    exact .congr (.ok _) (by simp)
  | float =>
    have hcode : Literal.emit family ⟨.float, text⟩ = .ok text :=
      congrArg _ (floatLiteral_eq_self family h)
    rw [hcode]
    exact .congr (.ok _) (by simp)
  | char => exact h.elim
  | string => exact .congr .error (by simp)

end Literal

/-! ### Expressions -/

namespace Expr

mutual

/-- The text of an expression with the given spelling of binary operators. -/
def textWith (symbol : BinaryOp → String) : Expr → String
  | id name _ => name
  | literal value _ => value.text
  | binary op l r _ =>
    parenthesized (l.precedence < op.precedence) (l.textWith symbol) ++ " " ++ symbol op ++ " " ++
      parenthesized (r.precedence < op.precedence + 1) (r.textWith symbol)
  | unary op e _ =>
    if op.isTrailing then parenthesized (e.precedence < 15) (e.textWith symbol) ++ op.symbol
    else op.symbol ++ parenthesized (op.fuses e || e.precedence < 14) (e.textWith symbol)
  | assign op t v _ =>
    parenthesized (t.precedence < 14) (t.textWith symbol) ++ " " ++ op.symbol ++ " " ++
      parenthesized (v.precedence < 2) (v.textWith symbol)
  | ternary p t e _ =>
    parenthesized (p.precedence < 4) (p.textWith symbol) ++ " ? " ++
      parenthesized (t.precedence < 2) (t.textWith symbol) ++ " : " ++
      parenthesized (e.precedence < 3) (e.textWith symbol)
  | call callee args _ => callee ++ "(" ++ ", ".intercalate (listTextsWith symbol args) ++ ")"
  | cast type e _ =>
    "(" ++ type.cName ++ ") " ++ parenthesized (e.precedence < 14) (e.textWith symbol)
  | index a i _ =>
    parenthesized (a.precedence < 15) (a.textWith symbol) ++ "[" ++ i.textWith symbol ++ "]"
  | initList items _ => openBrace ++ ", ".intercalate (listTextsWith symbol items) ++ closeBrace
  | comma items _ => ", ".intercalate (listTextsWith symbol items)

/-- The texts of the expressions between commas. -/
def listTextsWith (symbol : BinaryOp → String) : List Expr → List String
  | [] => []
  | e :: rest => parenthesized (e.precedence < 2) (e.textWith symbol) :: listTextsWith symbol rest

end

mutual

/-- With the C spelling of operators it is the C text. -/
theorem textWith_symbol (e : Expr) : e.textWith BinaryOp.symbol = e.text := by
  cases e with
  | id | literal => rfl
  | binary op l r c => simp only [textWith, text, textWith_symbol l, textWith_symbol r]
  | unary op e c => simp only [textWith, text, textWith_symbol e]
  | assign op t v c => simp only [textWith, text, textWith_symbol t, textWith_symbol v]
  | ternary p t e c =>
    simp only [textWith, text, textWith_symbol p, textWith_symbol t, textWith_symbol e]
  | cast type e c => simp only [textWith, text, textWith_symbol e]
  | index a i c => simp only [textWith, text, textWith_symbol a, textWith_symbol i]
  | call callee items c | initList items c | comma items c =>
    simp only [textWith, text, listTextsWith_symbol items]

theorem listTextsWith_symbol (items : List Expr) :
    listTextsWith BinaryOp.symbol items = listTexts items := by
  cases items with
  | nil => rfl
  | cons e rest =>
    simp only [listTextsWith, listTexts, textWith_symbol e, listTextsWith_symbol rest]

end

/-- Whether code can be written for the node, given code for its parts. -/
def hasCode : Expr → Bool
  | cast .. | initList .. => false
  | literal value _ => value.kind != .string
  | id .. | binary .. | unary .. | assign .. | ternary .. | call .. | index .. | comma .. => true

/-- The node is no literal, or a plain one. -/
def HasPlainLiteral : Expr → Prop
  | literal value _ => value.IsPlain
  | _ => True

mutual

/-- An expression has code if all its nodes can be written, and then the code is its text. -/
theorem emit_yieldsIf (family : Family) (e : Expr) (h : e.Everywhere HasPlainLiteral) :
    YieldsIf (e.emit family) (e.Everywhere (·.hasCode)) (e.textWith family.binarySymbol) := by
  cases e with
  | id name c => exact .congr (.ok _) (by simp [hasCode])
  | literal v c =>
    exact .congr (Literal.emit_yieldsIf family (everywhere_literal.1 h)) (by simp [hasCode])
  | binary op l r c =>
    obtain ⟨-, hl, hr⟩ := everywhere_binary.1 h
    exact .congr (.bind (emit_yieldsIf family l hl) (.bind (emit_yieldsIf family r hr) (.ok _)))
      (by simp [hasCode])
  | unary op e c =>
    exact .congr (.bind (emit_yieldsIf family e (everywhere_unary.1 h).2) (.ok _))
      (by simp [hasCode])
  | assign op t v c =>
    obtain ⟨-, ht, hv⟩ := everywhere_assign.1 h
    exact .congr (.bind (emit_yieldsIf family t ht) (.bind (emit_yieldsIf family v hv) (.ok _)))
      (by simp [hasCode])
  | ternary p t e c =>
    obtain ⟨-, hp, ht, he⟩ := everywhere_ternary.1 h
    exact .congr (.bind (emit_yieldsIf family p hp) (.bind (emit_yieldsIf family t ht)
      (.bind (emit_yieldsIf family e he) (.ok _)))) (by simp [hasCode])
  | call callee args c =>
    exact .congr (.bind (emitList_yieldsIf family args (everywhere_call.1 h).2) (.ok _))
      (by simp [hasCode])
  | cast type e c => exact .congr .error (by simp [hasCode])
  | index a i c =>
    obtain ⟨-, ha, hi⟩ := everywhere_index.1 h
    exact .congr (.bind (emit_yieldsIf family a ha) (.bind (emit_yieldsIf family i hi) (.ok _)))
      (by simp [hasCode])
  | initList items c => exact .congr .error (by simp [hasCode])
  | comma items c =>
    exact .congr (.bind (emitList_yieldsIf family items (everywhere_comma.1 h).2) (.ok _))
      (by simp [hasCode])

theorem emitList_yieldsIf (family : Family) (items : List Expr)
    (h : ∀ e ∈ items, e.Everywhere HasPlainLiteral) :
    YieldsIf (emitList family items) (∀ e ∈ items, e.Everywhere (·.hasCode))
      (listTextsWith family.binarySymbol items) := by
  cases items with
  | nil => exact .congr (.ok _) (by simp)
  | cons e rest =>
    obtain ⟨he, hrest⟩ := List.forall_mem_cons.1 h
    exact .congr (.bind (emit_yieldsIf family e he)
      (.bind (emitList_yieldsIf family rest hrest) (.ok _))) (by simp)

end

/-- Shader code of an expression is its C text; scalar code is this text with strict equality.
Both exist unless a cast, an initializer list or a string stands somewhere in the expression. -/
theorem emit_eq_text {e : Expr} (h : e.Everywhere HasPlainLiteral) (code : String) :
    (e.emit .shader = .ok code ↔ e.Everywhere (·.hasCode) ∧ code = e.text) ∧
      (e.emit .scalar = .ok code ↔
        e.Everywhere (·.hasCode) ∧ code = e.textWith BinaryOp.strictSymbol) := by
  have hshader := emit_yieldsIf .shader e h code
  have hscalar := emit_yieldsIf .scalar e h code
  rw [Family.binarySymbol_shader, textWith_symbol] at hshader
  rw [Family.binarySymbol_scalar] at hscalar
  exact ⟨hshader, hscalar⟩

/-- The choice `x == -3 ? -(-x) : f(1.5, (x, y) != z)`. -/
def equalityChoice : Expr :=
  .ternary (.binary .eq (.id "x" none) (.literal ⟨.int, "-3"⟩ none) none)
    (.unary .neg (.unary .neg (.id "x" none) none) none)
    (.call "f" [.literal ⟨.float, "1.5"⟩ none,
      .binary .ne (.comma [.id "x" none, .id "y" none] none) (.id "z" none) none] none) none

theorem emit_equalityChoice :
    equalityChoice.Everywhere HasPlainLiteral ∧
      equalityChoice.emit .shader = .ok "x == -3 ? -(-x) : f(1.5, (x, y) != z)" ∧
      equalityChoice.emit .scalar = .ok "x === -3 ? -(-x) : f(1.5, (x, y) !== z)" := by
  have hplain : equalityChoice.Everywhere HasPlainLiteral := by
    have hint : Literal.IsPlain ⟨.int, "-3"⟩ := ⟨-3, by decide, by decide⟩
    have hfloat : Literal.IsPlain ⟨.float, "1.5"⟩ := by
      unfold Literal.IsPlain
      decide +kernel
    simp [equalityChoice, HasPlainLiteral, hint, hfloat]
  have hcode : equalityChoice.Everywhere (·.hasCode) := by
    unfold Everywhere
    decide +kernel
  refine ⟨hplain, (emit_eq_text hplain _).1.2 ⟨hcode, ?_⟩, (emit_eq_text hplain _).2.2 ⟨hcode, ?_⟩⟩
  · decide +kernel
  · decide +kernel

end Expr

end MathKernel
