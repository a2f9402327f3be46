import MathKernel.Data.Json.Basic
import MathKernel.Number.Decimal

/-!
# JSON texts: writing

The compact form has no blanks; the indented form puts each item on a line of its own, two
blanks deeper than its container.
-/

namespace MathKernel

namespace Json

/-- Numbers are positional from `10 ^ -5` up to but not including `10 ^ 16`; elsewhere the
exponent has a sign. Of two equally near decimals the even one is written. -/
def floatLayout : FloatLayout :=
  { leastPositional := -5, endPositional := 16, signedExponent := true, tie := .toEven }

/-- Four hexadecimal digits. -/
def hexFour (n : Nat) : List Char :=
  let digits := Nat.toDigits 16 n
  List.replicate (4 - digits.length) '0' ++ digits

/-- The text of one character inside a string. -/
def escapeChar (c : Char) : List Char :=
  if c = '"' then ['\\', '"']
  else if c = '\\' then ['\\', '\\']
  else if c = '\n' then ['\\', 'n']
  else if c = '\r' then ['\\', 'r']
  else if c = '\t' then ['\\', 't']
  else if c.toNat = 8 then ['\\', 'b']
  else if c.toNat = 12 then ['\\', 'f']
  else if c.toNat < 32 then '\\' :: 'u' :: hexFour c.toNat
  else [c]

/-- A string in quotes. -/
def quote (s : String) : String :=
  String.ofList ('"' :: s.toList.flatMap escapeChar ++ ['"'])

/-- A number; one without a decimal form is written as null. -/
def numberText : JsonNumber → String
  | .int n => toString n
  | .float x => if x.isNaN || x.isInfinite then "null" else floatLayout.render x

mutual

/-- The text without blanks. -/
def compact : Json → String
  | null => "null"
  | bool true => "true"
  | bool false => "false"
  | number n => numberText n
  | string s => quote s
  | array items => "[" ++ ",".intercalate (compactItems items) ++ "]"
  | object members => '{'.toString ++ ",".intercalate (compactMembers members) ++ '}'.toString

/-- The texts of an array's items. -/
def compactItems : List Json → List String
  | [] => []
  | j :: rest => j.compact :: compactItems rest

/-- The texts of an object's members. -/
def compactMembers : List (String × Json) → List String
  | [] => []
  | (k, j) :: rest => (quote k ++ ":" ++ j.compact) :: compactMembers rest

end

/-- A line break followed by the blanks of a nesting depth. -/
def newline (depth : Nat) : String :=
  "\n" ++ String.ofList (List.replicate (2 * depth) ' ')

/-- Items between two brackets, each on a line of its own; none leave the brackets together. -/
def bracketed (depth : Nat) (left right : Char) (items : List String) : String :=
  if items.isEmpty then left.toString ++ right.toString
  else left.toString ++ newline (depth + 1) ++ ("," ++ newline (depth + 1)).intercalate items ++
    newline depth ++ right.toString

mutual

/-- The indented text, inside `depth` containers. -/
def indented (depth : Nat) : Json → String
  | null => "null"
  | bool true => "true"
  | bool false => "false"
  | number n => numberText n
  | string s => quote s
  | array items => bracketed depth '[' ']' (indentedItems (depth + 1) items)
  | object members => bracketed depth '{' '}' (indentedMembers (depth + 1) members)

/-- The indented texts of an array's items. -/
def indentedItems (depth : Nat) : List Json → List String
  | [] => []
  | j :: rest => j.indented depth :: indentedItems depth rest

/-- The indented texts of an object's members. -/
def indentedMembers (depth : Nat) : List (String × Json) → List String
  | [] => []
  | (k, j) :: rest => (quote k ++ ": " ++ j.indented depth) :: indentedMembers depth rest

end

/-- The indented text of a whole value. -/
def pretty (j : Json) : String :=
  j.indented 0

end Json

end MathKernel
