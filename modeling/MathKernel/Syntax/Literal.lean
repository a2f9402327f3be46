import MathKernel.Number.Decimal

/-!
# Literals

A literal keeps its text; its value is read off the text. Integer texts are decimal, octal
after a leading zero, or hexadecimal after `0x`, with any run of size and sign suffixes.
-/

namespace MathKernel

/-- The constant that stands for a value that is no number. -/
def notANumber : String := "NAN"

/-- The list without the longest run of elements satisfying `p` at its end. -/
def dropTrailing (p : Char → Bool) (text : List Char) : List Char :=
  (text.reverse.dropWhile p).reverse

/-- The category of a literal. -/
inductive LiteralKind where
  | int
  | float
  | char
  | string
  deriving DecidableEq, Repr

namespace LiteralKind

/-- Every category. -/
def all : List LiteralKind := [int, float, char, string]

/-- The name of the category. -/
def name : LiteralKind → String
  | int => "int"
  | float => "float"
  | char => "char"
  | string => "string"

end LiteralKind

/-- A literal as written. -/
structure Literal where
  kind : LiteralKind
  text : String
  deriving DecidableEq, Repr

namespace Literal

/-- Suffix letters of integer literals. -/
def isIntSuffix (c : Char) : Bool :=
  c == 'u' || c == 'U' || c == 'l' || c == 'L'

/-- Suffix letters of floating literals. -/
def isFloatSuffix (c : Char) : Bool :=
  c == 'f' || c == 'F' || c == 'l' || c == 'L'

/-- A floating literal's text without its suffix letters. -/
def dropFloatSuffix (text : List Char) : List Char :=
  dropTrailing isFloatSuffix text

/-- The text after a leading `0x` or `0X`. -/
def afterHexMark? : List Char → Option (List Char)
  | '0' :: 'x' :: rest => some rest
  | '0' :: 'X' :: rest => some rest
  | _ => none

/-- The value of an integer text, if it fits 64 bits. -/
def readInt? (text : List Char) : Option Int :=
  let trimmed := dropTrailing isIntSuffix text
  match afterHexMark? trimmed with
  | some digits => readInt64? 16 digits
  | none =>
    match trimmed with
    | '0' :: c :: rest => readInt64? 8 (c :: rest)
    | _ => readInt64? 10 trimmed

/-- The value of a floating text; hexadecimal ones are not read. -/
def readFloat? (text : List Char) : Option Binary64 :=
  let trimmed := dropFloatSuffix text
  match afterHexMark? trimmed with
  | some _ => none
  | none => Binary64.ofText? trimmed

/-- The code of a character written after a backslash. -/
def escapeCode? : Char → Option Nat
  | 'n' => some 10
  | 't' => some 9
  | '0' => some 0
  | '\\' => some 92
  | '\'' => some 39
  | _ => none

/-- The code of the character between two quotes. -/
def charCode? : List Char → Option Nat
  | '\\' :: escape :: _ => escapeCode? escape
  | [c] => some c.toNat
  | _ => none

/-- The code of a quoted character. -/
def readChar? (text : List Char) : Option Nat :=
  match text with
  | '\'' :: rest =>
    match rest.reverse with
    | '\'' :: inner => charCode? inner.reverse
    | _ => none
  | _ => none

/-- The value of an integer or character literal. -/
def intValue? (literal : Literal) : Option Int :=
  match literal.kind with
  | .int => readInt? literal.text.toList
  | .char => (readChar? literal.text.toList).map Int.ofNat
  | .float | .string => none

/-- The value of a numeric literal. -/
def floatValue? (literal : Literal) : Option Binary64 :=
  match literal.kind with
  | .int => (readInt? literal.text.toList).map Binary64.ofInt
  | .float => readFloat? literal.text.toList
  | .char => (readChar? literal.text.toList).map fun code => Binary64.ofInt code
  | .string => none

end Literal

end MathKernel
