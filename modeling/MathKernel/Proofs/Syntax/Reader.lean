import Mathlib.Data.List.Basic
import MathKernel.Proofs.Syntax.Tokens

/-!
# Reading expressions

A reader for the texts of expressions, by binding strength: an operand is read, and then what its
marks make of it as long as they are strong enough. Positions are left out. The reader counts its
steps down; a reading is a result that it has with every large number of steps.

## Main definitions

* `readExpr` — the reader
* `Gives` — a result with enough steps
* `MayFollow` — what may follow an expression

## Main results

* `Gives.unique` — there is one result at most
* `MayFollow.gives_readTail` — reading ends at a weaker mark
* `gives_readTail` — reading goes on at a mark
-/

namespace MathKernel

/-! ### The reader -/

/-- The type that a parenthesized name stands for. -/
def Expr.castType? : Expr → Option ScalarType
  | .id name _ => ScalarType.ofCName? name
  | _ => none

mutual

/-- Read an expression whose marks outside of brackets have at least the given strength. -/
def readExpr : Nat → Nat → List Char → Option (Expr × List Char)
  | 0, _, _ => none
  | n + 1, level, cs => do
    let (lead, rest) ← scanLead cs
    let (operand, rest) ← readOperand n lead rest
    readTail n level operand rest

/-- Read the operand that begins with a lead. -/
def readOperand : Nat → Lead → List Char → Option (Expr × List Char)
  | 0, _, _ => none
  | _ + 1, .literal value, cs => some (.literal value none, cs)
  | n + 1, .word name, cs =>
    if cs.head? = some '(' then do
      let (args, rest) ← readList n ')' cs.tail
      some (.call name args none, rest)
    else some (.id name none, cs)
  | n + 1, .sign op, cs => do
    let (e, rest) ← readExpr n 14 cs
    some (.unary op e none, rest)
  | n + 1, .brace, cs => do
    let (items, rest) ← readList n '}' cs
    some (.initList items none, rest)
  | n + 1, .paren, cs => do
    let (e, rest) ← readExpr n 1 cs
    -- A name is never wrapped, so one in parentheses is a type.
    match e.castType? with
    | none => do
      let rest ← rest.dropPrefix? [')']
      some (e, rest)
    | some type => do
      let rest ← rest.dropPrefix? [')', ' ']
      let (e, rest) ← readExpr n 14 rest
      some (.cast type e none, rest)

/-- Read on after an operand, as far as marks have the given strength. -/
def readTail : Nat → Nat → Expr → List Char → Option (Expr × List Char)
  | 0, _, _, _ => none
  | n + 1, level, e, cs =>
    match scanMark cs with
    | none => some (e, cs)
    | some (mark, rest) =>
      -- A mark that is too weak is left to whoever reads around this.
      if mark.strength < level then some (e, cs)
      else do
        let (e, rest) ← readMark n e mark rest
        readTail n level e rest

/-- Read what a mark makes of the operand before it. -/
def readMark : Nat → Expr → Mark → List Char → Option (Expr × List Char)
  | 0, _, _, _ => none
  | n + 1, e, .binary op, cs => do
    let (right, rest) ← readExpr n (op.precedence + 1) cs
    some (.binary op e right none, rest)
  | n + 1, e, .assign op, cs => do
    let (value, rest) ← readExpr n 2 cs
    some (.assign op e value none, rest)
  | n + 1, e, .question, cs => do
    let (onTrue, rest) ← readExpr n 2 cs
    let rest ← rest.dropPrefix? [' ', ':', ' ']
    let (onFalse, rest) ← readExpr n 3 rest
    some (.ternary e onTrue onFalse none, rest)
  | n + 1, e, .comma, cs => do
    let (next, rest) ← readExpr n 2 cs
    let (more, rest) ← readMore n rest
    some (.comma (e :: next :: more) none, rest)
  | _ + 1, e, .trailing op, cs => some (.unary op e none, cs)
  | n + 1, e, .bracket, cs => do
    let (subscript, rest) ← readExpr n 1 cs
    let rest ← rest.dropPrefix? [']']
    some (.index e subscript none, rest)

/-- Read the further items of a list, each after a comma. -/
def readMore : Nat → List Char → Option (List Expr × List Char)
  | 0, _ => none
  | n + 1, cs =>
    match scanMark cs with
    | some (.comma, rest) => do
      let (e, rest) ← readExpr n 2 rest
      let (more, rest) ← readMore n rest
      some (e :: more, rest)
    | _ => some ([], cs)

/-- Read a list up to its closing bracket. -/
def readList : Nat → Char → List Char → Option (List Expr × List Char)
  | 0, _, _ => none
  | n + 1, close, cs =>
    -- A closing bracket is no lead, so nothing is there to be read if the list is empty.
    match scanLead cs with
    | none => do
      let rest ← cs.dropPrefix? [close]
      some ([], rest)
    | some _ => do
      let (first, rest) ← readExpr n 2 cs
      let (more, rest) ← readMore n rest
      let rest ← rest.dropPrefix? [close]
      some (first :: more, rest)

end

/-! ### Results -/

/-- With enough steps a computation has the given result. -/
def Gives {α : Type} (x : Nat → Option α) (a : α) : Prop :=
  ∃ enough, ∀ n, enough ≤ n → x n = some a

namespace Gives

variable {α β γ : Type} {x : Nat → Option α} {y : Nat → Option β} {z : Nat → Option γ}
  {a a' : α} {b : β} {c : γ}

theorem unique (h : Gives x a) (h' : Gives x a') : a = a' := by
  obtain ⟨n, hn⟩ := h
  obtain ⟨n', hn'⟩ := h'
  have heq := (hn (max n n') (by omega)).symm.trans (hn' (max n n') (by omega))
  exact Option.some.inj heq

theorem of_step (h : ∀ n, x (n + 1) = some a) : Gives x a := by
  refine ⟨1, fun n hn => ?_⟩
  obtain ⟨n, rfl⟩ : ∃ m, n = m + 1 := ⟨n - 1, by omega⟩
  exact h n

/-- A step that uses one result. -/
theorem step (hx : Gives x a) (h : ∀ n, x n = some a → y (n + 1) = some b) : Gives y b := by
  obtain ⟨m, hm⟩ := hx
  refine ⟨m + 1, fun n hn => ?_⟩
  obtain ⟨n, rfl⟩ : ∃ m, n = m + 1 := ⟨n - 1, by omega⟩
  exact h n (hm n (by omega))

/-- A step that uses two results. -/
theorem step₂ (hx : Gives x a) (hy : Gives y b)
    (h : ∀ n, x n = some a → y n = some b → z (n + 1) = some c) : Gives z c := by
  obtain ⟨m, hm⟩ := hx
  obtain ⟨m', hm'⟩ := hy
  refine ⟨max m m' + 1, fun n hn => ?_⟩
  obtain ⟨n, rfl⟩ : ∃ m, n = m + 1 := ⟨n - 1, by omega⟩
  exact h n (hm n (by omega)) (hm' n (by omega))

end Gives

/-! ### What may follow -/

/-- The end of an expression, or a mark that is weaker than the given strength. -/
inductive MayFollow (k : Nat) : List Char → Prop where
  | nil : MayFollow k []
  | close {c : Char} (hc : c = ')' ∨ c = ']' ∨ c = '}') (rest : List Char) :
      MayFollow k (c :: rest)
  | colon (rest : List Char) : MayFollow k (' ' :: ':' :: ' ' :: rest)
  | mark {mark : Mark} (hmark : mark ∈ Mark.all) (hstrength : mark.strength < k)
      (rest : List Char) : MayFollow k (mark.text.toList ++ rest)

namespace MayFollow

variable {k k' level : Nat} {rest : List Char}

theorem mono (h : MayFollow k rest) (hk : k ≤ k') : MayFollow k' rest := by
  cases h with
  | nil => exact nil
  | close hc rest => exact close hc rest
  | colon rest => exact colon rest
  | mark hmark hstrength rest => exact mark hmark (Nat.lt_of_lt_of_le hstrength hk) rest

theorem scanMark_eq (h : MayFollow k rest) :
    scanMark rest = none ∨ ∃ mark s, scanMark rest = some (mark, s) ∧ mark.strength < k := by
  cases h with
  | nil => exact .inl rfl
  | close hc rest =>
    left
    rcases hc with rfl | rfl | rfl <;> rfl
  | colon rest => exact .inl rfl
  | mark hmark hstrength rest => exact .inr ⟨_, _, scanMark_text hmark rest, hstrength⟩

/-- Reading ends at a mark that is too weak. -/
theorem gives_readTail (h : MayFollow k rest) (hk : k ≤ level) (e : Expr) :
    Gives (readTail · level e rest) (e, rest) := by
  refine .of_step fun n => ?_
  rcases h.scanMark_eq with hnone | ⟨mark, s, hsome, hstrength⟩
  · simp [readTail, hnone]
  · simp [readTail, hsome, Nat.lt_of_lt_of_le hstrength hk]

/-- No name, number or quoted text goes on, and no call begins. -/
theorem endsToken (h : MayFollow k rest) :
    isBoundary rest = true ∧ (rest.head? == some '(') = false := by
  cases h with
  | nil => exact ⟨rfl, rfl⟩
  | close hc rest => rcases hc with rfl | rfl | rfl <;> exact ⟨rfl, rfl⟩
  | colon rest => exact ⟨rfl, rfl⟩
  | @mark mark hmark hstrength rest =>
    cases mark with
    | binary op => cases op <;> exact ⟨rfl, rfl⟩
    | assign op => cases op <;> exact ⟨rfl, rfl⟩
    | question | comma | bracket => exact ⟨rfl, rfl⟩
    | trailing op =>
      have hop : op = .postInc ∨ op = .postDec := by simpa [Mark.all] using hmark
      rcases hop with rfl | rfl <;> exact ⟨rfl, rfl⟩

end MayFollow

/-! ### Steps of the reader -/

section Steps

variable {cs s s' rest : List Char} {lead : Lead} {mark : Mark} {e e' t : Expr} {level : Nat}
  {items : List Expr} {r : Expr × List Char}

theorem gives_readExpr (hlead : scanLead cs = some (lead, s))
    (hoperand : Gives (readOperand · lead s) (e, rest))
    (htail : Gives (readTail · level e rest) r) : Gives (readExpr · level cs) r :=
  hoperand.step₂ htail fun n hoperand htail => by simp [readExpr, hlead, hoperand, htail]

theorem scanLead_ne_none (h : Gives (readExpr · level cs) r) : scanLead cs ≠ none := by
  intro hnone
  obtain ⟨n, hn⟩ := h
  have hread := hn (n + 1) (Nat.le_succ n)
  simp [readExpr, hnone] at hread

theorem gives_literal {value : Literal} :
    Gives (readOperand · (.literal value) s) (.literal value none, s) :=
  .of_step fun _ => rfl

theorem gives_id {name : String} (h : (s.head? == some '(') = false) :
    Gives (readOperand · (.word name) s) (.id name none, s) :=
  .of_step fun n => by simp_all [readOperand]

theorem gives_call {name : String} (h : Gives (readList · ')' s) (items, rest)) :
    Gives (readOperand · (.word name) ('(' :: s)) (.call name items none, rest) :=
  h.step fun n h => by simp [readOperand, h]

theorem gives_initList (h : Gives (readList · '}' s) (items, rest)) :
    Gives (readOperand · .brace s) (.initList items none, rest) :=
  h.step fun n h => by simp [readOperand, h]

theorem gives_sign {op : UnaryOp} (h : Gives (readExpr · 14 s) (e, rest)) :
    Gives (readOperand · (.sign op) s) (.unary op e none, rest) :=
  h.step fun n h => by simp [readOperand, h]

theorem gives_paren (h : Gives (readExpr · 1 s) (e, ')' :: rest)) (htype : e.castType? = none) :
    Gives (readOperand · .paren s) (e, rest) :=
  h.step fun n h => by simp [readOperand, h, htype, List.dropPrefix?]

theorem gives_cast {type : ScalarType} (ht : Gives (readExpr · 1 s) (t, ')' :: ' ' :: s'))
    (htype : t.castType? = some type) (h : Gives (readExpr · 14 s') (e, rest)) :
    Gives (readOperand · .paren s) (.cast type e none, rest) :=
  ht.step₂ h fun n ht h => by simp [readOperand, ht, htype, List.dropPrefix?, h]

/-- Reading goes on at a mark that is strong enough. -/
theorem gives_readTail (hmark : mark ∈ Mark.all) (hlevel : level ≤ mark.strength)
    (hread : Gives (readMark · e mark s) (e', rest)) (htail : Gives (readTail · level e' rest) r) :
    Gives (readTail · level e (mark.text.toList ++ s)) r :=
  hread.step₂ htail fun n hread htail => by
    simp [readTail, scanMark_text hmark, Nat.not_lt.2 hlevel, hread, htail]

theorem gives_binary {op : BinaryOp} (h : Gives (readExpr · (op.precedence + 1) s) (e', rest)) :
    Gives (readMark · e (.binary op) s) (.binary op e e' none, rest) :=
  h.step fun n h => by simp [readMark, h]

theorem gives_assign {op : AssignOp} (h : Gives (readExpr · 2 s) (e', rest)) :
    Gives (readMark · e (.assign op) s) (.assign op e e' none, rest) :=
  h.step fun n h => by simp [readMark, h]

theorem gives_ternary (ht : Gives (readExpr · 2 s) (t, ' ' :: ':' :: ' ' :: s'))
    (h : Gives (readExpr · 3 s') (e', rest)) :
    Gives (readMark · e .question s) (.ternary e t e' none, rest) :=
  ht.step₂ h fun n ht h => by simp [readMark, ht, List.dropPrefix?, h]

theorem gives_index (h : Gives (readExpr · 1 s) (e', ']' :: rest)) :
    Gives (readMark · e .bracket s) (.index e e' none, rest) :=
  h.step fun n h => by simp [readMark, h, List.dropPrefix?]

theorem gives_trailing {op : UnaryOp} :
    Gives (readMark · e (.trailing op) s) (.unary op e none, s) :=
  .of_step fun _ => rfl

theorem gives_comma (h : Gives (readExpr · 2 s) (e', s'))
    (hitems : Gives (readMore · s') (items, rest)) :
    Gives (readMark · e .comma s) (.comma (e :: e' :: items) none, rest) :=
  h.step₂ hitems fun n h hitems => by simp [readMark, h, hitems]

end Steps

end MathKernel
