import Mathlib.Data.List.TakeWhile
import MathKernel.Normalize.NamePool
import MathKernel.Syntax.Printer

/-!
# Tokens of expressions

A text of an expression is scanned at two kinds of places. Where an operand begins there is a lead:
an operator before its operand, an opening bracket, a literal or a name. After an operand there is
a mark, which goes on with it, or its end. A lead or a mark is found again from its text and what
follows.

Identifiers and literals are taken as wide as the scanner allows. Every identifier and every
constant of C is among them; of numbers only the outer form is asked for, and the kind is read off
the point or the exponent.

## Main definitions

* `isIdentifier`, `Literal.isToken` — what names and literals are written with
* `Lead`, `scanLead` — how an operand begins
* `Mark`, `scanMark` — how an operand goes on

## Main results

* `scanLead_name`, `scanLead_literal`, `scanLead_sign`, `scanMark_text` — leads and marks are found
  again
-/

namespace MathKernel

/-! ### Names -/

/-- Letters, digits and underscores, what is beyond ASCII, and the backslash of a universal
character name. -/
def isWordChar (c : Char) : Bool :=
  isIdentifierChar c || c == '\\' || 127 < c.toNat

/-- A nonempty word that does not begin with a digit. Reserved words are included. -/
def isIdentifier (name : String) : Bool :=
  match name.toList with
  | [] => false
  | c :: rest => isWordChar c && !c.isDigit && rest.all isWordChar

/-! ### Numbers -/

/-- Whether a text begins with a digit. -/
def startsWithDigit : List Char → Bool
  | [] => false
  | c :: _ => c.isDigit

/-- Whether a number goes on with a character, given the one before it and the text after it. A
sign stands between the mark of an exponent and a digit. -/
def continuesNumber (last c : Char) (rest : List Char) : Bool :=
  isIdentifierChar c || c == '.' ||
    ("eEpP".toList.contains last && "+-".toList.contains c && startsWithDigit rest)

/-- Whether a number goes on to the end of a text. -/
def isNumberTail (last : Char) : List Char → Bool
  | [] => true
  | c :: rest => continuesNumber last c rest && isNumberTail c rest

/-- Take from a text what a number goes on with. -/
def takeNumber (last : Char) : List Char → List Char × List Char
  | [] => ([], [])
  | c :: rest =>
    if continuesNumber last c rest then
      let (number, rest) := takeNumber c rest
      (c :: number, rest)
    else ([], c :: rest)

/-- A digit, or a point and a digit, and what a number goes on with. -/
def isNumber : List Char → Bool
  | [] => false
  | c :: rest => (c.isDigit || (c == '.' && startsWithDigit rest)) && isNumberTail c rest

/-- The kind of a number. The exponent of a hexadecimal one is marked by `p`, as `e` is a digit. -/
def numberKind (text : List Char) : LiteralKind :=
  let isExponentMark (c : Char) : Bool :=
    if (Literal.afterHexMark? text).isSome then c == 'p' || c == 'P' else c == 'e' || c == 'E'
  if text.any fun c => c == '.' || isExponentMark c then .float else .int

/-! ### Quoted texts -/

/-- The kind of literal between quotes. -/
def quoteKind? (c : Char) : Option LiteralKind :=
  if c = '\'' then some .char else if c = '"' then some .string else none

/-- Whether a text is what follows an opening quote up to the closing one. A backslash takes the
next character with it. -/
def isQuotedTail (quote : Char) : List Char → Bool
  | [] => false
  | '\\' :: _ :: rest => isQuotedTail quote rest
  | c :: rest => if c = quote then rest.isEmpty else isQuotedTail quote rest

/-- Take from a text what follows an opening quote up to the closing one. -/
def takeQuoted (quote : Char) : List Char → Option (List Char × List Char)
  | [] => none
  | '\\' :: c :: rest =>
    (takeQuoted quote rest).map fun (quoted, rest) => ('\\' :: c :: quoted, rest)
  | c :: rest =>
    if c = quote then some ([c], rest)
    else (takeQuoted quote rest).map fun (quoted, rest) => (c :: quoted, rest)

/-- What may stand before an opening quote. -/
def encodings : List String := ["", "L", "u", "U", "u8"]

/-- A quoted text of the given kind, after the mark of its encoding. -/
def isQuoted (kind : LiteralKind) (text : List Char) : Bool :=
  match text.dropWhile isWordChar with
  | [] => false
  | quote :: tail =>
    encodings.contains (String.ofList (text.takeWhile isWordChar)) &&
      quoteKind? quote == some kind && isQuotedTail quote tail

/-- Whether the text of a literal is one of its kind. -/
def Literal.isToken (value : Literal) : Bool :=
  match value.kind with
  | .int | .float =>
    isNumber value.text.toList && numberKind value.text.toList == value.kind
  | .char | .string => isQuoted value.kind value.text.toList

/-! ### Leads -/

/-- How an operand begins. -/
inductive Lead where
  | sign (op : UnaryOp)
  | paren
  | brace
  | literal (value : Literal)
  | word (name : String)
  deriving DecidableEq

/-- The operators that stand before their operand, longer ones first. -/
def UnaryOp.leading : List UnaryOp :=
  [preInc, preDec, neg, plus, not, bitNot]

/-- Scan a number that begins with the given character. -/
def scanNumber (first : Char) (cs : List Char) : Lead × List Char :=
  let (number, rest) := takeNumber first cs
  (.literal ⟨numberKind (first :: number), String.ofList (first :: number)⟩, rest)

/-- Scan a name, or a quoted text after the mark of its encoding. -/
def scanWord (cs : List Char) : Option (Lead × List Char) :=
  let word := cs.takeWhile isWordChar
  match cs.dropWhile isWordChar with
  | [] => some (.word (String.ofList word), [])
  | quote :: rest =>
    match quoteKind? quote with
    | none => some (.word (String.ofList word), quote :: rest)
    | some kind => (takeQuoted quote rest).map fun (quoted, rest) =>
      (.literal ⟨kind, String.ofList (word ++ quote :: quoted)⟩, rest)

/-- Scan the beginning of an operand. -/
def scanLead (cs : List Char) : Option (Lead × List Char) :=
  match UnaryOp.leading.find? fun op => op.symbol.toList.isPrefixOf cs with
  | some op => some (.sign op, cs.drop op.symbol.toList.length)
  | none =>
    match cs with
    | [] => none
    | c :: rest =>
      if c = '(' then some (.paren, rest)
      else if c = '{' then some (.brace, rest)
      else if c.isDigit || c == '.' then some (scanNumber c rest)
      -- A quote begins a text that has no mark of an encoding.
      else if isWordChar c || (quoteKind? c).isSome then scanWord (c :: rest)
      else none

/-- Whether a text goes on with no name, number or quoted text. -/
def isBoundary : List Char → Bool
  | [] => true
  | c :: rest =>
    !isWordChar c && c != '.' && (quoteKind? c).isNone &&
      !("+-".toList.contains c && startsWithDigit rest)

/-! ### Marks -/

/-- How an operand goes on. -/
inductive Mark where
  | binary (op : BinaryOp)
  | assign (op : AssignOp)
  | question
  | comma
  | trailing (op : UnaryOp)
  | bracket
  deriving DecidableEq

namespace Mark

/-- Every mark. -/
def all : List Mark :=
  BinaryOp.all.map binary ++ AssignOp.all.map assign ++
    [question, comma, trailing .postInc, trailing .postDec, bracket]

/-- The text of a mark. -/
def text : Mark → String
  | binary op => " " ++ op.symbol ++ " "
  | assign op => " " ++ op.symbol ++ " "
  | question => " ? "
  | comma => ", "
  | trailing op => op.symbol
  | bracket => "["

/-- Binding strength. -/
def strength : Mark → Nat
  | binary op => op.precedence
  | assign _ => 2
  | question => 3
  | comma => 1
  | trailing _ | bracket => 15

end Mark

/-- Scan a mark. -/
def scanMark (cs : List Char) : Option (Mark × List Char) :=
  (Mark.all.find? fun mark => mark.text.toList.isPrefixOf cs).map fun mark =>
    (mark, cs.drop mark.text.toList.length)

/-! ### Scanning names and literals -/

variable {rest : List Char}

theorem continuesNumber_append {last c : Char} {tail : List Char}
    (h : continuesNumber last c tail = true) (rest : List Char) :
    continuesNumber last c (tail ++ rest) = true := by
  cases tail with
  | nil => simp_all [continuesNumber, startsWithDigit]
  | cons d tail => exact h

theorem takeNumber_of_isBoundary (hrest : isBoundary rest = true) (last : Char) :
    takeNumber last rest = ([], rest) := by
  cases rest with
  | nil => rfl
  | cons c rest =>
    have hend : continuesNumber last c rest = false := by
      grind [isBoundary, isWordChar, continuesNumber]
    simp [takeNumber, hend]

/-- The induction is on the number; its end is where nothing goes on with it. -/
theorem takeNumber_append {last : Char} {tail : List Char} (htail : isNumberTail last tail = true)
    (hrest : isBoundary rest = true) : takeNumber last (tail ++ rest) = (tail, rest) := by
  induction tail generalizing last with
  | nil => exact takeNumber_of_isBoundary hrest last
  | cons c tail ih =>
    obtain ⟨hc, htail⟩ := Bool.and_eq_true_iff.1 htail
    simp [takeNumber, continuesNumber_append hc, ih htail]

theorem takeQuoted_cons {quote c : Char} (hc : c ≠ '\\') (rest : List Char) :
    takeQuoted quote (c :: rest) =
      if c = quote then some ([c], rest)
      else (takeQuoted quote rest).map fun (quoted, rest) => (c :: quoted, rest) := by
  rw [takeQuoted]
  exact fun _ _ h => absurd h hc

theorem takeQuoted_append {quote : Char} (hquote : quote ≠ '\\') {tail : List Char}
    (htail : isQuotedTail quote tail = true) (rest : List Char) :
    takeQuoted quote (tail ++ rest) = some (tail, rest) := by
  fun_induction isQuotedTail quote tail with
  | case1 => cases htail
  | case2 c tail ih => simp [takeQuoted, ih htail]
  | case3 tail hescape =>
    rw [List.isEmpty_iff.1 htail]
    simp [takeQuoted_cons hquote]
  | case4 c tail hescape hc ih =>
    -- A backslash that takes nothing with it would be the last character.
    have hc' : c ≠ '\\' := by
      rintro rfl
      cases tail with
      | nil => cases htail
      | cons d tail => exact hescape d tail rfl rfl
    simp [takeQuoted_cons hc', hc, ih htail]

/-- A word ends where no character of a word follows. -/
theorem split_word {word : List Char} (hword : ∀ c ∈ word, isWordChar c = true)
    (hrest : ∀ c ∈ rest.head?, isWordChar c = false) :
    (word ++ rest).takeWhile isWordChar = word ∧ (word ++ rest).dropWhile isWordChar = rest := by
  rw [List.takeWhile_append_of_pos hword, List.dropWhile_append_of_pos hword]
  cases rest with
  | nil => exact ⟨List.append_nil word, rfl⟩
  | cons c rest =>
    have hc : ¬ isWordChar c = true := by simp [hrest c rfl]
    rw [List.takeWhile_cons_of_neg hc, List.dropWhile_cons_of_neg hc]
    exact ⟨List.append_nil word, rfl⟩

theorem scanNumber_append {first : Char} {tail : List Char}
    (htail : isNumberTail first tail = true) (hrest : isBoundary rest = true) :
    scanNumber first (tail ++ rest) =
      (.literal ⟨numberKind (first :: tail), String.ofList (first :: tail)⟩, rest) := by
  simp only [scanNumber, takeNumber_append htail hrest]

theorem scanWord_name {word : List Char} (hword : ∀ c ∈ word, isWordChar c = true)
    (hrest : isBoundary rest = true) :
    scanWord (word ++ rest) = some (.word (String.ofList word), rest) := by
  have hends : ∀ c ∈ rest.head?, isWordChar c = false ∧ quoteKind? c = none := by
    intro c hc
    obtain ⟨rest, rfl⟩ := List.head?_eq_some_iff.1 hc
    simp only [isBoundary, Bool.and_eq_true, Bool.not_eq_true', Option.isNone_iff_eq_none] at hrest
    exact ⟨hrest.1.1.1, hrest.1.2⟩
  obtain ⟨htake, hdrop⟩ := split_word hword fun c hc => (hends c hc).1
  cases rest with
  | nil => simp only [scanWord, htake, hdrop]
  | cons c rest => simp only [scanWord, htake, hdrop, (hends c rfl).2]

theorem eq_or_eq_of_quoteKind? {c : Char} {kind : LiteralKind} (h : quoteKind? c = some kind) :
    c = '\'' ∨ c = '"' := by
  unfold quoteKind? at h
  grind

theorem scanWord_quoted {kind : LiteralKind} {text : List Char} (h : isQuoted kind text = true)
    (rest : List Char) :
    scanWord (text ++ rest) = some (.literal ⟨kind, String.ofList text⟩, rest) := by
  have hsplit := List.takeWhile_append_dropWhile (p := isWordChar) (l := text)
  have hword : ∀ c ∈ text.takeWhile isWordChar, isWordChar c = true :=
    fun c hc => List.mem_takeWhile_imp hc
  unfold isQuoted at h
  split at h
  · cases h
  · next quote tail hdrop =>
    simp only [Bool.and_eq_true, beq_iff_eq] at h
    obtain ⟨⟨-, hkind⟩, htail⟩ := h
    obtain ⟨hquote, hc⟩ : quote ≠ '\\' ∧ isWordChar quote = false := by
      rcases eq_or_eq_of_quoteKind? hkind with rfl | rfl <;> decide
    rw [hdrop] at hsplit
    rw [← hsplit, List.append_assoc, List.cons_append]
    have hends : ∀ c ∈ (quote :: (tail ++ rest)).head?, isWordChar c = false := by simp [hc]
    obtain ⟨htake, hdrop⟩ := split_word hword hends
    simp [scanWord, htake, hdrop, hkind, takeQuoted_append hquote htail]

/-! ### Scanning leads -/

/-- Whether a text begins, and not like an operator before its operand. -/
def isUnsigned : List Char → Bool
  | [] => false
  | c :: _ => !"+-!~".toList.contains c

/-- Whether a character is an opening bracket or begins an operator before its operand. -/
def isOpener (c : Char) : Bool :=
  ['+', '-', '!', '~', '(', '{'].contains c

theorem of_isOpener {c : Char} (h : isOpener c = true) :
    c.isDigit = false ∧ c ≠ '.' ∧ isWordChar c = false ∧ quoteKind? c = none := by
  have hc : c = '+' ∨ c = '-' ∨ c = '!' ∨ c = '~' ∨ c = '(' ∨ c = '{' := by
    simpa [isOpener] using h
  rcases hc with rfl | rfl | rfl | rfl | rfl | rfl <;> decide

theorem scanLead_cons {c : Char} (hc : isOpener c = false) (cs : List Char) :
    scanLead (c :: cs) =
      if c.isDigit || c == '.' then some (scanNumber c cs)
      else if isWordChar c || (quoteKind? c).isSome then scanWord (c :: cs)
      else none := by
  have hnone : (UnaryOp.leading.find? fun op => op.symbol.toList.isPrefixOf (c :: cs)) = none := by
    simp_all [isOpener, UnaryOp.leading, UnaryOp.symbol]
    grind
  have hparen : c ≠ '(' ∧ c ≠ '{' := by
    simp_all [isOpener]
  simp only [scanLead, hnone, if_neg hparen.1, if_neg hparen.2]

@[simp] theorem toList_openBrace : openBrace.toList = ['{'] := rfl

@[simp] theorem toList_closeBrace : closeBrace.toList = ['}'] := rfl

theorem scanLead_paren (cs : List Char) : scanLead ('(' :: cs) = some (.paren, cs) := rfl

theorem scanLead_brace (cs : List Char) : scanLead ('{' :: cs) = some (.brace, cs) := rfl

theorem scanLead_number {text : List Char} (h : isNumber text = true)
    (hrest : isBoundary rest = true) :
    scanLead (text ++ rest) =
      some (.literal ⟨numberKind text, String.ofList text⟩, rest) := by
  cases text with
  | nil => cases h
  | cons c tail =>
    simp only [isNumber, Bool.and_eq_true, Bool.or_eq_true] at h
    obtain ⟨hstart, htail⟩ := h
    have hc : (c.isDigit || c == '.') = true := by grind
    have hopener : isOpener c = false := by grind [of_isOpener]
    rw [List.cons_append, scanLead_cons hopener, if_pos hc, scanNumber_append htail hrest]

theorem scanLead_of_word {c : Char} (hc : (isWordChar c || (quoteKind? c).isSome) = true)
    (hdigit : c.isDigit = false) (cs : List Char) : scanLead (c :: cs) = scanWord (c :: cs) := by
  have hopener : isOpener c = false := by grind [of_isOpener]
  have hpoint : c ≠ '.' := by
    rintro rfl
    revert hc
    decide
  rw [scanLead_cons hopener, if_neg (by simp [hdigit, hpoint]), if_pos hc]

theorem scanLead_name {name : String} (h : isIdentifier name = true)
    (hrest : isBoundary rest = true) :
    scanLead (name.toList ++ rest) = some (.word name, rest) := by
  unfold isIdentifier at h
  split at h
  · cases h
  · next c tail hname =>
    simp only [Bool.and_eq_true, Bool.not_eq_true', List.all_eq_true] at h
    obtain ⟨⟨hc, hdigit⟩, htail⟩ := h
    have hscan := scanWord_name (List.forall_mem_cons.2 ⟨hc, htail⟩) hrest
    rw [hname, List.cons_append, scanLead_of_word (by simp [hc]) hdigit, ← List.cons_append, hscan,
      ← hname, String.ofList_toList]

theorem scanLead_quoted {kind : LiteralKind} {text : List Char} (h : isQuoted kind text = true)
    (rest : List Char) :
    scanLead (text ++ rest) = some (.literal ⟨kind, String.ofList text⟩, rest) := by
  rw [← scanWord_quoted h rest]
  have hsplit := List.takeWhile_append_dropWhile (p := isWordChar) (l := text)
  unfold isQuoted at h
  split at h
  · cases h
  · next quote tail hdrop =>
    simp only [Bool.and_eq_true, beq_iff_eq] at h
    obtain ⟨⟨hencoding, hkind⟩, -⟩ := h
    rw [hdrop] at hsplit
    cases hword : text.takeWhile isWordChar with
    | nil =>
      have hdigit : quote.isDigit = false := by
        rcases eq_or_eq_of_quoteKind? hkind with rfl | rfl <;> rfl
      rw [← hsplit, hword, List.nil_append, List.cons_append]
      exact scanLead_of_word (by simp [hkind]) hdigit _
    | cons c word =>
      -- The mark of an encoding is a word, and not a number.
      have hall : ∀ encoding ∈ encodings, startsWithDigit encoding.toList = false := by decide
      have hdigit := hall _ (List.contains_iff_mem.1 hencoding)
      rw [hword, String.toList_ofList] at hdigit
      have hc : c ∈ text.takeWhile isWordChar := hword ▸ List.mem_cons_self
      rw [← hsplit, hword, List.cons_append, List.cons_append]
      exact scanLead_of_word (by simp [List.mem_takeWhile_imp hc]) hdigit _

theorem scanLead_sign {op : UnaryOp} (hop : op.isTrailing = false)
    (hrest : op.symbol.toList.getLast? ≠ rest.head?) :
    scanLead (op.symbol.toList ++ rest) = some (.sign op, rest) := by
  cases op with
  | postInc | postDec => cases hop
  | preInc | preDec | not | bitNot => rfl
  | neg | plus =>
    -- The longer operator with the same character comes first, but does not fit.
    cases rest with
    | nil => rfl
    | cons c rest =>
      simp only [UnaryOp.symbol, String.reduceToList, List.getLast?_singleton, List.head?_cons,
        ne_eq, Option.some.injEq] at hrest
      simp [scanLead, UnaryOp.leading, List.find?, List.isPrefixOf, UnaryOp.symbol,
        beq_false_of_ne hrest]

theorem scanLead_literal {value : Literal} (h : value.isToken = true)
    (hrest : isBoundary rest = true) :
    scanLead (value.text.toList ++ rest) = some (.literal value, rest) := by
  obtain ⟨kind, text⟩ := value
  have hnumber (h : isNumber text.toList && numberKind text.toList == kind) :
      scanLead (text.toList ++ rest) = some (.literal ⟨kind, text⟩, rest) := by
    simp only [Bool.and_eq_true, beq_iff_eq] at h
    rw [scanLead_number h.1 hrest, h.2, String.ofList_toList]
  have hquoted (h : isQuoted kind text.toList) :
      scanLead (text.toList ++ rest) = some (.literal ⟨kind, text⟩, rest) := by
    rw [scanLead_quoted h, String.ofList_toList]
  cases kind with
  | int | float => exact hnumber h
  | char | string => exact hquoted h

example : Literal.isToken ⟨.float, "0x.8p-1f"⟩ ∧
    scanLead "0x.8p-1f)".toList = some (.literal ⟨.float, "0x.8p-1f"⟩, [')']) := by
  decide

/-- A text that begins with another lead does not begin like an operator. -/
theorem isUnsigned_of_scanLead {cs s : List Char} {lead : Lead} (h : scanLead cs = some (lead, s))
    (hlead : ∀ op, lead ≠ .sign op) : isUnsigned cs = true := by
  cases cs with
  | nil => cases h
  | cons c cs =>
    unfold scanLead at h
    split at h
    · next op _ =>
      cases h
      exact absurd rfl (hlead op)
    · next hnone =>
      cases hsigned : isUnsigned (c :: cs) with
      | true => rfl
      | false =>
        have hc : c = '+' ∨ c = '-' ∨ c = '!' ∨ c = '~' := by grind [isUnsigned]
        obtain ⟨op, hop, hsymbol⟩ : ∃ op ∈ UnaryOp.leading, op.symbol.toList = [c] := by
          rcases hc with rfl | rfl | rfl | rfl
          · exact ⟨.plus, by decide, rfl⟩
          · exact ⟨.neg, by decide, rfl⟩
          · exact ⟨.not, by decide, rfl⟩
          · exact ⟨.bitNot, by decide, rfl⟩
        have hfits := List.find?_eq_none.1 hnone op hop
        simp [hsymbol] at hfits

theorem isUnsigned_append {cs : List Char} (h : isUnsigned cs = true) (rest : List Char) :
    isUnsigned (cs ++ rest) = true := by
  cases cs with
  | nil => cases h
  | cons c cs => exact h

theorem isUnsigned_name {name : String} (h : isIdentifier name = true) :
    isUnsigned name.toList = true := by
  have hlead : scanLead (name.toList ++ []) = _ := scanLead_name h rfl
  rw [List.append_nil] at hlead
  exact isUnsigned_of_scanLead hlead nofun

theorem isUnsigned_literal {value : Literal} (h : value.isToken = true) :
    isUnsigned value.text.toList = true := by
  have hlead : scanLead (value.text.toList ++ []) = _ := scanLead_literal h rfl
  rw [List.append_nil] at hlead
  exact isUnsigned_of_scanLead hlead nofun

/-- An operator does not go on with such a text. -/
theorem getLast?_symbol_ne {op : UnaryOp} (hop : op.isTrailing = false) {cs : List Char}
    (h : isUnsigned cs = true) : op.symbol.toList.getLast? ≠ cs.head? := by
  cases cs with
  | nil => cases h
  | cons c cs =>
    intro heq
    have hall : ∀ op ∈ UnaryOp.all, op.isTrailing = false →
        isUnsigned (op.symbol.toList.getLast?.toList) = false := by decide
    have hop' := hall op (by cases op <;> decide) hop
    rw [heq] at hop'
    exact absurd (h.symm.trans hop') (by decide)

/-! ### Scanning marks -/

theorem Mark.eq_of_prefix {a b : Mark} (ha : a ∈ all) (hb : b ∈ all)
    (h : a.text.toList <+: b.text.toList) : a = b := by
  have hall : ∀ a ∈ all, ∀ b ∈ all, a.text.toList <+: b.text.toList → a = b := by
    decide +kernel
  exact hall a ha b hb h

/-- A mark is found again. -/
theorem scanMark_text {mark : Mark} (hmark : mark ∈ Mark.all) (rest : List Char) :
    scanMark (mark.text.toList ++ rest) = some (mark, rest) := by
  have hself : mark.text.toList <+: mark.text.toList ++ rest := List.prefix_append _ _
  -- No mark begins with another one, so the first that fits is the one.
  have hunique : ∀ other ∈ Mark.all, other.text.toList <+: mark.text.toList ++ rest →
      other = mark := by
    intro other hother hprefix
    rcases List.prefix_or_prefix_of_prefix hprefix hself with h | h
    · exact Mark.eq_of_prefix hother hmark h
    · exact (Mark.eq_of_prefix hmark hother h).symm
  have hfind : (Mark.all.find? fun m => m.text.toList.isPrefixOf (mark.text.toList ++ rest)) =
      some mark := by
    cases hfound : Mark.all.find? fun m => m.text.toList.isPrefixOf (mark.text.toList ++ rest) with
    | none =>
      exact absurd (List.isPrefixOf_iff_prefix.2 hself) (List.find?_eq_none.1 hfound mark hmark)
    | some other =>
      have hother := List.find?_some hfound
      rw [hunique other (List.mem_of_find?_eq_some hfound) (List.isPrefixOf_iff_prefix.1 hother)]
  simp [scanMark, hfind]

end MathKernel
