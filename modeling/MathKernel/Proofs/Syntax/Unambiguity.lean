import MathKernel.Proofs.Syntax.Positions
import MathKernel.Proofs.Syntax.Reader

/-!
# Texts of expressions are unambiguous

Two expressions with the same text are the same up to positions. The reader gives back each
expression from its text: an operand that is not wrapped binds at least as tight as its place asks
for, so what follows it is too weak to be taken for a part of it, and an operand that is wrapped is
read between its parentheses. An operator that stands before its operand is not run together with
it, as the operand begins in another way or is wrapped.

## Main definitions

* `Expr.IsLexical` — names and literals are tokens, and commas separate at least two items
* `Expr.ReadsBack` — an expression is read from its text

## Main results

* `Expr.readsBack`, `Expr.gives_text` — every expression is read from its text
* `Expr.text_eq_iff` — expressions with the same text
-/

namespace MathKernel

namespace Expr

/-- Names are identifiers, literals are tokens of their kind, and commas separate two items or
more. -/
def IsLexical : Expr → Prop
  | id name _ | call name _ _ => isIdentifier name = true
  | literal value _ => value.isToken = true
  | comma items _ => 2 ≤ items.length
  | _ => True

/-! ### Operands -/

/-- The strength that a mark after the expression stays below, lest it go on with the last
operand. -/
def follow (e : Expr) : Nat :=
  if e.precedence ≤ 3 ∨ e.precedence = 14 then e.precedence else e.precedence + 1

theorem precedence_le_follow (e : Expr) : e.precedence ≤ e.follow := by
  unfold follow
  split <;> omega

theorem lt_follow_of_lt {e : Expr} {k min : Nat} (hk : k < min) (h : min ≤ e.precedence) :
    k < e.follow :=
  Nat.lt_of_lt_of_le hk (Nat.le_trans h e.precedence_le_follow)

theorem follow_le (e : Expr) : e.follow ≤ e.precedence + 1 := by
  unfold follow
  split <;> omega

theorem lt_follow {e : Expr} {k : Nat} (hk : 4 ≤ k ∧ k ≠ 14) (h : k ≤ e.precedence) :
    k < e.follow := by
  unfold follow
  split <;> omega

theorem binaryOp_precedence (op : BinaryOp) : 4 ≤ op.precedence ∧ op.precedence ≤ 13 := by
  cases op <;> decide

theorem one_le_precedence (e : Expr) : 1 ≤ e.precedence := by
  cases e with
  | binary op => exact Nat.le_trans (by decide) (binaryOp_precedence op).1
  | unary op => cases op <;> exact Nat.le_of_ble_eq_true rfl
  | _ => exact Nat.le_of_ble_eq_true rfl

/-- The text of an operand, wrapped if it binds looser than the given strength. -/
def operandText (min : Nat) (e : Expr) : String :=
  parenthesized (decide (e.precedence < min)) e.text

/-- Reading the expression's text comes to reading on after it. -/
def ReadsBack (e : Expr) : Prop :=
  ∀ level rest r, level ≤ e.precedence → MayFollow e.follow rest →
    Gives (readTail · level e.erase rest) r → Gives (readExpr · level (e.text.toList ++ rest)) r

namespace ReadsBack

variable {e : Expr} {level : Nat} {rest : List Char} {r : Expr × List Char}

/-- Between brackets a whole expression is read. -/
theorem inside (h : e.ReadsBack) {c : Char} (hc : c = ')' ∨ c = ']' ∨ c = '}')
    (rest : List Char) :
    Gives (readExpr · 1 (e.text.toList ++ c :: rest)) (e.erase, c :: rest) := by
  have hend : MayFollow 0 (c :: rest) := .close hc rest
  exact h 1 _ _ e.one_le_precedence (.close hc rest) (hend.gives_readTail (Nat.zero_le 1) e.erase)

theorem wrapped (h : e.ReadsBack) (hatom : e.precedence ≠ 16)
    (htail : Gives (readTail · level e.erase rest) r) :
    Gives (readExpr · level ('(' :: (e.text.toList ++ ')' :: rest))) r := by
  -- Names are not wrapped, so this is no cast.
  have htype : e.erase.castType? = none := by
    cases e with
    | id => exact absurd rfl hatom
    | _ => rfl
  exact gives_readExpr (scanLead_paren _) (gives_paren (h.inside (.inl rfl) rest) htype) htail

theorem operand (h : e.ReadsBack) (min : Nat) (hmin : min ≤ 15) (hlevel : level ≤ min)
    (hrest : min ≤ e.precedence → MayFollow e.follow rest)
    (htail : Gives (readTail · level e.erase rest) r) :
    Gives (readExpr · level ((e.operandText min).toList ++ rest)) r := by
  by_cases hwrap : e.precedence < min
  · simpa [operandText, parenthesized, hwrap] using h.wrapped (by omega) htail
  · have hread := h level rest r (by omega) (hrest (by omega)) htail
    simpa [operandText, parenthesized, hwrap] using hread

/-- The last operand is read as a whole. -/
theorem last (h : e.ReadsBack) (min : Nat) (hmin : min ≤ 15) (hrest : MayFollow min rest) :
    Gives (readExpr · min ((e.operandText min).toList ++ rest)) (e.erase, rest) := by
  refine h.operand min hmin (Nat.le_refl min) (fun hle => ?_)
    (hrest.gives_readTail (Nat.le_refl min) e.erase)
  exact hrest.mono (Nat.le_trans hle e.precedence_le_follow)

/-- The first operand is read on at the mark after it. -/
theorem first (h : e.ReadsBack) (min : Nat) {mark : Mark} {s : List Char} {e' : Expr}
    (hread : Gives (readMark · e.erase mark s) (e', rest))
    (htail : Gives (readTail · level e' rest) r) (hmark : mark ∈ Mark.all) (hmin : min ≤ 15)
    (hlevel : level ≤ min ∧ level ≤ mark.strength)
    (hfollow : min ≤ e.precedence → mark.strength < e.follow) :
    Gives (readExpr · level ((e.operandText min).toList ++ (mark.text.toList ++ s))) r :=
  h.operand min hmin hlevel.1 (fun hle => .mark hmark (hfollow hle) s)
    (gives_readTail hmark hlevel.2 hread htail)

end ReadsBack

/-! ### Marks -/

variable {l r t v p a i e : Expr} {c : Coord}

theorem readsBack_binary {op : BinaryOp} (hl : l.ReadsBack) (hr : r.ReadsBack) :
    (binary op l r c).ReadsBack := by
  intro level rest _ hlevel hrest htail
  obtain ⟨hlow, hhigh⟩ := binaryOp_precedence op
  -- On the left an operand of the same strength is not wrapped, and the mark goes on with it; on
  -- the right it is wrapped, so a further mark of this strength is left to the whole.
  have hlast := hr.last (op.precedence + 1) (by omega) (hrest.mono (follow_le _))
  have hread := hl.first op.precedence (gives_binary hlast) htail (by cases op <;> decide)
    (by omega) ⟨hlevel, hlevel⟩ (lt_follow ⟨hlow, by omega⟩)
  simpa [text, Mark.text, operandText] using hread

theorem readsBack_assign {op : AssignOp} (ht : t.ReadsBack) (hv : v.ReadsBack) :
    (assign op t v c).ReadsBack := by
  intro level rest _ (hlevel : level ≤ 2) hrest htail
  have hmark : .assign op ∈ Mark.all := by cases op <;> decide
  -- Assignments group to the right, so the value may be one that is not wrapped.
  have hlast := hv.last 2 (by decide) hrest
  have hread := ht.first 14 (gives_assign hlast) htail hmark (by decide) ⟨by omega, hlevel⟩
    (lt_follow_of_lt (by decide : 2 < 14))
  simpa [text, Mark.text, operandText] using hread

theorem readsBack_ternary (hp : p.ReadsBack) (ht : t.ReadsBack) (he : e.ReadsBack) :
    (ternary p t e c).ReadsBack := by
  intro level rest _ (hlevel : level ≤ 3) hrest htail
  have hlast := he.last 3 (by decide) hrest
  have hmiddle := ht.last 2 (by decide) (.colon ((e.operandText 3).toList ++ rest))
  have hread := hp.first 4 (gives_ternary hmiddle hlast) htail (by decide) (by decide)
    ⟨by omega, hlevel⟩ (lt_follow_of_lt (by decide))
  simpa [text, Mark.text, operandText] using hread

theorem readsBack_index (ha : a.ReadsBack) (hi : i.ReadsBack) : (index a i c).ReadsBack := by
  intro level rest _ hlevel hrest htail
  have hsubscript := hi.inside (.inr (.inl rfl)) rest
  have hread := ha.first 15 (gives_index hsubscript) htail (by decide) (Nat.le_refl 15)
    ⟨hlevel, hlevel⟩ (lt_follow ⟨by decide, by decide⟩)
  simpa [text, Mark.text, operandText] using hread

theorem readsBack_trailing {op : UnaryOp} (hop : op.isTrailing = true) (he : e.ReadsBack) :
    (unary op e c).ReadsBack := by
  intro level rest _ hlevel hrest htail
  have hlevel' : level ≤ 15 := by simpa [precedence, hop] using hlevel
  have hmark : .trailing op ∈ Mark.all := by
    cases op with
    | postInc | postDec => decide
    | _ => cases hop
  have hread := he.first 15 gives_trailing htail hmark (Nat.le_refl 15) ⟨hlevel', hlevel'⟩
    (lt_follow ⟨by decide, by decide⟩)
  simpa [text, hop, Mark.text, operandText] using hread

/-! ### Lists -/

/-- The text of further items, each after a comma. -/
def moreText (items : List Expr) : List Char :=
  items.flatMap fun e => Mark.comma.text.toList ++ (e.operandText 2).toList

theorem moreText_cons_append (e : Expr) (items : List Expr) (rest : List Char) :
    moreText (e :: items) ++ rest =
      Mark.comma.text.toList ++ ((e.operandText 2).toList ++ (moreText items ++ rest)) := by
  simp [moreText]

theorem listTexts_eq (items : List Expr) : listTexts items = items.map (operandText 2) := by
  induction items with
  | nil => rfl
  | cons e rest ih => rw [listTexts, ih, List.map_cons, operandText]

theorem toList_intercalate_listTexts (e : Expr) (items : List Expr) :
    (", ".intercalate (listTexts (e :: items))).toList =
      (e.operandText 2).toList ++ moreText items := by
  rw [String.toList_intercalate, listTexts_eq]
  induction items generalizing e with
  | nil => simp [moreText]
  | cons e' items ih =>
    have ih := ih e'
    simp only [List.map_cons] at ih ⊢
    rw [List.intercalate_cons_cons, ih]
    simp [moreText, Mark.text]

variable {items : List Expr} {rest : List Char}

theorem mayFollow_moreText (hrest : MayFollow 1 rest) (items : List Expr) :
    MayFollow 2 (moreText items ++ rest) := by
  cases items with
  | nil => exact hrest.mono (by decide)
  | cons e items =>
    rw [moreText_cons_append]
    exact .mark (by decide) (by decide) _

/-- Further items are read up to what is no comma. -/
theorem gives_readMore (hitems : ∀ e ∈ items, e.ReadsBack) (hrest : MayFollow 1 rest) :
    Gives (readMore · (moreText items ++ rest)) (items.map erase, rest) := by
  induction items with
  | nil =>
    -- A comma is not weaker than itself.
    have hend : ∀ s, scanMark rest ≠ some (.comma, s) := by
      rintro s hsome
      rcases hrest.scanMark_eq with hnone | ⟨mark, s', hsome', hstrength⟩
      · rw [hnone] at hsome
        cases hsome
      · cases hsome.symm.trans hsome'
        exact absurd hstrength (by decide)
    refine .of_step fun n => ?_
    change readMore (n + 1) rest = _
    rw [readMore]
    split
    · next s hsome => exact absurd hsome (hend s)
    · rfl
  | cons e items ih =>
    obtain ⟨he, hitems⟩ := List.forall_mem_cons.1 hitems
    have hfirst := he.last 2 (by decide) (mayFollow_moreText hrest items)
    have hcomma : .comma ∈ Mark.all := by decide
    refine hfirst.step₂ (ih hitems) fun n hfirst hmore => ?_
    simp [moreText_cons_append, readMore, scanMark_text hcomma, hfirst, hmore]

theorem gives_readList (hitems : ∀ e ∈ items, e.ReadsBack) {close : Char}
    (hclose : close = ')' ∨ close = '}') (rest : List Char) :
    Gives (readList · close ((", ".intercalate (listTexts items)).toList ++ close :: rest))
      (items.map erase, rest) := by
  have hend : MayFollow 1 (close :: rest) := .close (hclose.imp_right .inr) rest
  cases items with
  | nil =>
    have hnone : scanLead (close :: rest) = none := by
      rcases hclose with rfl | rfl <;> rfl
    refine .of_step fun n => ?_
    change readList (n + 1) close (close :: rest) = _
    simp [readList, hnone, List.dropPrefix?]
  | cons e items =>
    obtain ⟨he, hitems⟩ := List.forall_mem_cons.1 hitems
    have hfirst := he.last 2 (by decide) (mayFollow_moreText hend items)
    obtain ⟨lead, hlead⟩ := Option.ne_none_iff_exists'.1 (scanLead_ne_none hfirst)
    rw [toList_intercalate_listTexts, List.append_assoc]
    refine hfirst.step₂ (gives_readMore hitems hend) fun n hfirst hmore => ?_
    simp [readList, hlead, hfirst, hmore, List.dropPrefix?]

theorem readsBack_comma (hitems : ∀ e ∈ items, e.ReadsBack) (hlength : 2 ≤ items.length) :
    (comma items c).ReadsBack := by
  intro level rest _ (hlevel : level ≤ 1) hrest htail
  match items, hlength with
  | e :: e' :: items, _ =>
    obtain ⟨he, hitems⟩ := List.forall_mem_cons.1 hitems
    obtain ⟨he', hitems⟩ := List.forall_mem_cons.1 hitems
    -- The second item comes with the first comma, and the others are read up to no comma.
    have hsecond := he'.last 2 (by decide) (mayFollow_moreText hrest items)
    rw [text, toList_intercalate_listTexts, List.append_assoc, moreText_cons_append]
    refine he.first 2 (gives_comma hsecond (gives_readMore hitems hrest)) ?_ (by decide)
      (by decide) ⟨by omega, hlevel⟩ (lt_follow_of_lt (by decide))
    simpa [erase] using htail

/-! ### Leads -/

theorem readsBack_id {name : String} (h : isIdentifier name = true) : (id name c).ReadsBack := by
  intro level rest _ hlevel hrest htail
  obtain ⟨hboundary, hcall⟩ := hrest.endsToken
  exact gives_readExpr (scanLead_name h hboundary) (gives_id hcall) htail

theorem readsBack_literal {value : Literal} (h : value.isToken = true) :
    (literal value c).ReadsBack := by
  intro level rest _ hlevel hrest htail
  exact gives_readExpr (scanLead_literal h hrest.endsToken.1) gives_literal htail

theorem readsBack_call {callee : String} (h : isIdentifier callee = true)
    (hitems : ∀ e ∈ items, e.ReadsBack) : (call callee items c).ReadsBack := by
  intro level rest _ hlevel hrest htail
  have hlist := gives_readList hitems (.inl rfl) rest
  have hlead (s : List Char) :
      scanLead (callee.toList ++ '(' :: s) = some (.word callee, '(' :: s) := scanLead_name h rfl
  rw [erase, eraseList_eq_map] at htail
  simpa [text] using gives_readExpr (hlead _) (gives_call hlist) htail

theorem readsBack_initList (hitems : ∀ e ∈ items, e.ReadsBack) : (initList items c).ReadsBack := by
  intro level rest _ hlevel hrest htail
  have hlist := gives_readList hitems (.inr rfl) rest
  rw [erase, eraseList_eq_map] at htail
  simpa [text] using gives_readExpr (scanLead_brace _) (gives_initList hlist) htail

theorem readsBack_cast {type : ScalarType} (he : e.ReadsBack) : (cast type e c).ReadsBack := by
  intro level rest _ hlevel hrest htail
  have hlast := he.last 14 (by decide) hrest
  -- The type is read as a name in parentheses, and no name is written so.
  have hname : (id type.cName none).ReadsBack := readsBack_id (by cases type <;> decide)
  have htype : (id type.cName none).erase.castType? = some type := by cases type <;> decide
  have hread := gives_readExpr (scanLead_paren _)
    (gives_cast (hname.inside (.inl rfl) _) htype hlast) htail
  simpa [text, operandText] using hread

/-! ### Operators before their operand -/

theorem isUnsigned_operandText (h : 15 ≤ e.precedence → isUnsigned e.text.toList = true)
    (rest : List Char) : isUnsigned ((e.operandText 15).toList ++ rest) = true := by
  refine isUnsigned_append ?_ rest
  by_cases hwrap : e.precedence < 15
  · simp [operandText, parenthesized, hwrap, isUnsigned]
  · simpa [operandText, parenthesized, hwrap] using h (by omega)

/-- Only operators before their operand, and what binds looser, begin like an operator. The
induction is on what stands before the marks of an expression. -/
theorem isUnsigned_text (h : e.Everywhere IsLexical) (hprecedence : 15 ≤ e.precedence) :
    isUnsigned e.text.toList = true := by
  induction e using parts_induction with
  | h e ih =>
    obtain ⟨hnode, hparts⟩ := everywhere_iff.1 h
    cases e with
    | id name => exact isUnsigned_name hnode
    | literal value => exact isUnsigned_literal hnode
    | call callee args =>
      rw [text, String.toList_append, String.toList_append, String.toList_append, List.append_assoc,
        List.append_assoc]
      exact isUnsigned_append (isUnsigned_name hnode) _
    | index a i =>
      have ha := ih a List.mem_cons_self (hparts a List.mem_cons_self)
      simpa [text, operandText] using isUnsigned_operandText ha ('[' :: (i.text.toList ++ [']']))
    | unary op e =>
      cases hop : op.isTrailing with
      | true =>
        have he := ih e List.mem_cons_self (hparts e List.mem_cons_self)
        simpa [text, hop, operandText] using isUnsigned_operandText he op.symbol.toList
      | false => simp [precedence, hop] at hprecedence
    | initList items => simp [text, isUnsigned]
    | binary op l r =>
      have hop := binaryOp_precedence op
      simp only [precedence] at hprecedence
      omega
    | _ => simp [precedence] at hprecedence

/-- The operand does not go on with the operator. -/
theorem getLast?_symbol_ne_operand {op : UnaryOp} (hop : op.isTrailing = false)
    (h : e.Everywhere IsLexical) (rest : List Char) :
    op.symbol.toList.getLast? ≠
      ((parenthesized (op.fuses e || e.precedence < 14) e.text).toList ++ rest).head? := by
  cases hwrap : op.fuses e || decide (e.precedence < 14) with
  | true =>
    refine getLast?_symbol_ne hop ?_
    simp [parenthesized, isUnsigned]
  | false =>
    obtain ⟨hfuses, hprecedence⟩ := Bool.or_eq_false_iff.1 hwrap
    have hprecedence := of_decide_eq_false hprecedence
    change _ ≠ (e.text.toList ++ rest).head?
    by_cases hunsigned : 15 ≤ e.precedence
    · exact getLast?_symbol_ne hop (isUnsigned_append (isUnsigned_text h hunsigned) rest)
    · cases e with
      | cast type e =>
        refine getLast?_symbol_ne hop ?_
        simp [text, isUnsigned]
      | unary inner e =>
        -- Not wrapped, so it does not fuse.
        have hinner : inner.isTrailing = false := by
          cases htrailing : inner.isTrailing with
          | false => rfl
          | true => simp [precedence, htrailing] at hunsigned
        have hsymbol : inner.symbol.toList ≠ [] := by cases inner <;> decide
        simpa [UnaryOp.fuses, hinner, text, List.head?_append_of_ne_nil _ hsymbol] using hfuses
      | binary op l r =>
        have hop := binaryOp_precedence op
        simp only [precedence] at hprecedence
        omega
      | _ => simp [precedence] at hprecedence hunsigned

theorem readsBack_sign {op : UnaryOp} (hop : op.isTrailing = false) (he : e.ReadsBack)
    (hlexical : e.Everywhere IsLexical) : (unary op e c).ReadsBack := by
  intro level rest _ hlevel hrest htail
  have hrest' : MayFollow 14 rest := by simpa [follow, precedence, hop] using hrest
  have hlead := scanLead_sign hop (getLast?_symbol_ne_operand hop hlexical rest)
  -- An operand that would fuse is wrapped though it binds tight enough.
  have hoperand : Gives (readExpr · 14
      ((parenthesized (op.fuses e || e.precedence < 14) e.text).toList ++ rest))
      (e.erase, rest) := by
    cases hfuses : op.fuses e with
    | true =>
      have hatom : e.precedence ≠ 16 := by
        cases e with
        | unary inner e => cases inner <;> exact Nat.ne_of_beq_eq_false rfl
        | _ => cases hfuses
      have hread := he.wrapped hatom (hrest'.gives_readTail (Nat.le_refl 14) e.erase)
      simpa [parenthesized] using hread
    | false => exact he.last 14 (by decide) hrest'
  simpa [text, hop] using gives_readExpr hlead (gives_sign hoperand) htail

/-! ### All expressions -/

/-- Every expression is read from its text: the induction is on its parts, with one case for each
constructor. -/
theorem readsBack (h : e.Everywhere IsLexical) : e.ReadsBack := by
  induction e using parts_induction with
  | h e ih =>
    obtain ⟨hnode, hparts⟩ := everywhere_iff.1 h
    have ih : ∀ part ∈ e.parts, part.ReadsBack :=
      fun part hpart => ih part hpart (hparts part hpart)
    cases e with
    | id => exact readsBack_id hnode
    | literal => exact readsBack_literal hnode
    | binary => exact readsBack_binary (ih _ (by simp [parts])) (ih _ (by simp [parts]))
    | unary op e =>
      have he := ih e (by simp [parts])
      cases hop : op.isTrailing with
      | true => exact readsBack_trailing hop he
      | false => exact readsBack_sign hop he (hparts e (by simp [parts]))
    | assign => exact readsBack_assign (ih _ (by simp [parts])) (ih _ (by simp [parts]))
    | ternary =>
      exact readsBack_ternary (ih _ (by simp [parts])) (ih _ (by simp [parts]))
        (ih _ (by simp [parts]))
    | call => exact readsBack_call hnode ih
    | cast => exact readsBack_cast (ih _ (by simp [parts]))
    | index => exact readsBack_index (ih _ (by simp [parts])) (ih _ (by simp [parts]))
    | initList => exact readsBack_initList ih
    | comma => exact readsBack_comma ih hnode

/-- Reading the text of an expression gives the expression without positions. -/
theorem gives_text (h : e.Everywhere IsLexical) :
    Gives (readExpr · 1 e.text.toList) (e.erase, []) := by
  have hend : MayFollow 0 [] := .nil
  have hread := readsBack h 1 [] _ e.one_le_precedence .nil
    (hend.gives_readTail (Nat.zero_le 1) e.erase)
  rwa [List.append_nil] at hread

theorem listTexts_erase (h : ∀ e ∈ items, e.erase.text = e.text) :
    listTexts (items.map erase) = listTexts items := by
  simp only [listTexts_eq, List.map_map]
  refine List.map_congr_left fun e he => ?_
  simp only [Function.comp_apply, operandText, precedence_erase, h e he]

theorem text_erase (e : Expr) : e.erase.text = e.text := by
  induction e using parts_induction with
  | h e ih =>
    cases e with
    | call _ items | initList items | comma items =>
      have hitems : listTexts (items.map erase) = listTexts items := listTexts_erase ih
      simp only [erase, eraseList_eq_map, text, hitems]
    | _ => simp_all [erase, text, parts, UnaryOp.fuses_erase]

/-- Two expressions have the same text exactly if they are the same up to positions. -/
theorem text_eq_iff {e e' : Expr} (h : e.Everywhere IsLexical) (h' : e'.Everywhere IsLexical) :
    e.text = e'.text ↔ e.erase = e'.erase := by
  constructor
  · intro htext
    -- One text, read once, gives both.
    have hread := gives_text h
    rw [htext] at hread
    exact (Prod.mk.inj (hread.unique (gives_text h'))).1
  · intro herase
    rw [← text_erase e, ← text_erase e', herase]

/-- The expression `-(-x)`, where the inner negation has the given position. -/
def twiceNegated (c : Coord) : Expr :=
  unary .neg (unary .neg (id "x" none) c) none

/-- The expression `--x`. -/
def decremented : Expr :=
  unary .preDec (id "x" none) none

theorem text_eq_iff_twiceNegated :
    (twiceNegated none).Everywhere IsLexical ∧
      (twiceNegated (some "unit.c:1:5")).Everywhere IsLexical ∧
      decremented.Everywhere IsLexical ∧
      (twiceNegated none).erase = (twiceNegated (some "unit.c:1:5")).erase ∧
      (twiceNegated none).text ≠ decremented.text := by
  have hx : isIdentifier "x" = true := by decide
  have htwice (c : Coord) : (twiceNegated c).Everywhere IsLexical := by
    simp [twiceNegated, IsLexical, hx]
  have hdecremented : decremented.Everywhere IsLexical := by
    simp [decremented, IsLexical, hx]
  refine ⟨htwice _, htwice _, hdecremented, (text_eq_iff (htwice _) (htwice _)).1 rfl, ?_⟩
  intro htext
  have herase := (text_eq_iff (htwice none) hdecremented).1 htext
  cases herase

end Expr

end MathKernel
