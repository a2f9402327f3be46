import MathKernel.Data.Json.Basic
import MathKernel.Number.Decimal

/-!
# JSON texts: reading

A text is split into tokens, and the tokens are read as one value. Strings must hold no bare
control character and no unpaired surrogate escape; numbers must lie in the floating-point
range, and those with many digits are read in steps that round one by one; containers may nest up
to a given depth. Of a value that is only skipped the grammar alone is checked.

## Main definitions

* `Json.tokens`: the tokens of a text.
* `Json.Scrutiny`: whether a value is wanted or skipped.
* `Json.parse`: the value of a text.
* `Json.parseRecord`: the value of a text of which only some members are wanted.
-/

namespace MathKernel

namespace Json

/-- Why a text is no JSON value. -/
inductive ReadError where
  | unexpectedEnd
  | unexpectedChar (c : Char)
  | controlCharacter
  | invalidEscape
  | unpairedSurrogate
  | invalidNumber
  | numberOutOfRange
  | unexpectedToken
  | tooDeep
  | trailingText
  deriving DecidableEq, Repr

/-- What the error says. -/
def ReadError.message : ReadError → String
  | unexpectedEnd => "the text ends inside a value"
  | unexpectedChar c => "unexpected character '" ++ c.toString ++ "'"
  | controlCharacter => "control character in a string"
  | invalidEscape => "invalid escape"
  | unpairedSurrogate => "unpaired surrogate in an escape"
  | invalidNumber => "invalid number"
  | numberOutOfRange => "number out of range"
  | unexpectedToken => "a value, comma or closing bracket is missing or misplaced"
  | tooDeep => "the value is nested too deeply"
  | trailingText => "text after the value"

/-- A lexical unit. -/
inductive Token where
  | openObject
  | closeObject
  | openArray
  | closeArray
  | comma
  | colon
  | null
  | bool (value : Bool)
  /-- A number, which has no value outside the range. -/
  | number (value : Option JsonNumber)
  /-- A string, which has no value if a surrogate in it is unpaired. -/
  | string (value : Option String)
  deriving DecidableEq

/-! ### Strings -/

/-- The value of four hexadecimal digits. -/
def hexValue? (a b c d : Char) : Option Nat :=
  readDigits? 16 [a, b, c, d]

/-- The character of a one-letter escape. -/
def simpleEscape? : Char → Option Char
  | '"' => some '"'
  | '\\' => some '\\'
  | '/' => some '/'
  | 'b' => some '\x08'
  | 'f' => some '\x0c'
  | 'n' => some '\n'
  | 'r' => some '\r'
  | 't' => some '\t'
  | _ => none

/-- Whether a code is the first half of a pair. -/
def isHighSurrogate (n : Nat) : Bool :=
  0xD800 ≤ n && n ≤ 0xDBFF

/-- Whether a code is the second half of a pair. -/
def isLowSurrogate (n : Nat) : Bool :=
  0xDC00 ≤ n && n ≤ 0xDFFF

/-- The character that two surrogates stand for. -/
def pairedChar (high low : Nat) : Char :=
  Char.ofNat (0x10000 + (high - 0xD800) * 0x400 + (low - 0xDC00))

/-- Read the rest of a string after its opening quote. The characters read so far are held in
reverse, and `paired` says that no surrogate among them was unpaired; the result is the string
and the text after the closing quote. -/
def readString (paired : Bool) (reversed : List Char) :
    List Char → Except ReadError (Option String × List Char)
  | [] => .error .unexpectedEnd
  | '"' :: rest => .ok (if paired then some (String.ofList reversed.reverse) else none, rest)
  | '\\' :: 'u' :: a :: b :: c :: d :: rest =>
    match hexValue? a b c d with
    | none => .error .invalidEscape
    | some code =>
      if isHighSurrogate code then
        match rest with
        | '\\' :: 'u' :: e :: f :: g :: h :: tail =>
          match hexValue? e f g h with
          | none => .error .invalidEscape
          | some low =>
            if isLowSurrogate low then readString paired (pairedChar code low :: reversed) tail
            else readString false reversed tail
        | other => readString false reversed other
      else if isLowSurrogate code then readString false reversed rest
      else readString paired (Char.ofNat code :: reversed) rest
  | '\\' :: e :: rest =>
    match simpleEscape? e with
    | some c => readString paired (c :: reversed) rest
    | none => .error .invalidEscape
  | c :: rest =>
    if c = '\\' then .error .unexpectedEnd
    else if c.toNat < 32 then .error .controlCharacter
    else readString paired (c :: reversed) rest

/-! ### Numbers -/

/-- Characters of which numbers consist. -/
def isNumberChar (c : Char) : Bool :=
  c.isDigit || c == '-' || c == '+' || c == '.' || c == 'e' || c == 'E'

/-- Whether the integer part has digits and no superfluous leading zero. -/
def wellFormedWhole : List Char → Bool
  | [] => false
  | ['0'] => true
  | c :: rest => c != '0' && (c :: rest).all Char.isDigit

/-- Collect digits into a significand as long as it has 64 bits; the first digit that does not fit
and those after it are left. -/
def collectDigits (significand : Nat) : List Char → Nat × List Char
  | [] => (significand, [])
  | c :: rest =>
    let next := 10 * significand + (c.toNat - '0'.toNat)
    if next < pow2 64 then collectDigits next rest else (significand, c :: rest)

/-- The exponent of the greatest power of ten that is a finite number. -/
def greatestPower : Nat := 308

/-- A power of ten as a floating-point number. -/
def floatPower (k : Nat) : Binary64 :=
  .ofRatio false (pow10 k) 1

/-- The quotient by the greatest power of ten, as often as there are blocks, and then by another
one. -/
def divideByPowers (last : Nat) : Nat → Binary64 → Binary64
  | 0, x => x.div (floatPower last)
  | blocks + 1, x =>
    if x.isZero then x else divideByPowers last blocks (x.div (floatPower greatestPower))

/-- The number `significand * 10 ^ exponent` in floating-point steps, which round one by one; none
beyond the range. -/
def scaled? (significand : Nat) : Int → Option Binary64
  | .ofNat k =>
    let x := Binary64.ofInt significand
    if k ≤ greatestPower then some (x.mul (floatPower k)) |>.filter (!·.isInfinite)
    else if significand = 0 then some x
    else none
  | .negSucc k =>
    some (divideByPowers (k % greatestPower + 1) (k / greatestPower) (.ofInt significand))

/-- The value of an integer of 64 bits: one with a sign that is zero or does not fit becomes a
floating-point value. -/
def integerNumber (negative : Bool) (magnitude : Nat) : JsonNumber :=
  if !negative then .int magnitude
  else if magnitude ≠ 0 ∧ magnitude ≤ pow2 63 then .int (-(magnitude : Int))
  else .float (Binary64.ofInt magnitude).neg

/-- The value of a number with the given digits and exponent. Digits beyond the significand count
as zeros; those of a fraction are dropped. -/
def floatNumber (negative : Bool) (whole fraction : List Char) (exponent : Int) :
    Option JsonNumber :=
  let (leading, beyond) := collectDigits 0 whole
  let (significand, dropped) := collectDigits leading fraction
  let shift : Int := exponent + beyond.length - (fraction.length - dropped.length : Nat)
  (scaled? significand shift).map fun x => .float (if negative then x.neg else x)

/-- Read a whole number token; a number outside the range has no value. -/
def readNumber (text : List Char) : Except ReadError (Option JsonNumber) :=
  let (negative, body) := match text with
    | '-' :: rest => (true, rest)
    | rest => (false, rest)
  let whole := body.takeWhile Char.isDigit
  let rest := body.dropWhile Char.isDigit
  let (fraction, tail) := Decimal.splitFraction rest
  if !wellFormedWhole whole then .error .invalidNumber
  else if rest.head? = some '.' ∧ fraction = [] then .error .invalidNumber
  else
    match Decimal.readExponent? tail with
    | none => .error .invalidNumber
    | some exponent =>
      match rest, collectDigits 0 whole with
      | [], (magnitude, []) => .ok (some (integerNumber negative magnitude))
      | _, _ => .ok (floatNumber negative whole fraction exponent)

/-! ### Tokens -/

/-- The blanks between tokens. -/
def isBlank (c : Char) : Bool :=
  c == ' ' || c == '\n' || c == '\r' || c == '\t'

/-- The token of a single punctuation character. -/
def punctuation? (c : Char) : Option Token :=
  if c = '{' then some .openObject
  else if c = '}' then some .closeObject
  else if c = '[' then some .openArray
  else if c = ']' then some .closeArray
  else if c = ',' then some .comma
  else if c = ':' then some .colon
  else none

/-- The first token of a nonblank text and the text after it. -/
def nextToken : List Char → Except ReadError (Token × List Char)
  | [] => .error .unexpectedEnd
  | '"' :: rest => (readString true [] rest).map fun (s, tail) => (.string s, tail)
  | 'n' :: 'u' :: 'l' :: 'l' :: rest => .ok (.null, rest)
  | 't' :: 'r' :: 'u' :: 'e' :: rest => .ok (.bool true, rest)
  | 'f' :: 'a' :: 'l' :: 's' :: 'e' :: rest => .ok (.bool false, rest)
  | c :: rest =>
    match punctuation? c with
    | some token => .ok (token, rest)
    | none =>
      if c.isDigit || c == '-' then
        let text := c :: rest.takeWhile isNumberChar
        (readNumber text).map fun n => (.number n, rest.dropWhile isNumberChar)
      else .error (.unexpectedChar c)

/-- Collect tokens, the ones found so far held in reverse. Each token takes at least one
character, so as many steps as there are characters suffice. -/
def tokensFrom : Nat → List Token → List Char → Except ReadError (List Token)
  | 0, found, _ => .ok found.reverse
  | fuel + 1, found, text =>
    match text.dropWhile isBlank with
    | [] => .ok found.reverse
    | c :: rest =>
      match nextToken (c :: rest) with
      | .error e => .error e
      | .ok (token, tail) => tokensFrom fuel (token :: found) tail

/-- The tokens of a text. -/
def tokens (text : List Char) : Except ReadError (List Token) :=
  tokensFrom (text.length + 1) [] text

/-! ### Values -/

/-- How a value is read. -/
inductive Scrutiny where
  /-- It is wanted; `limit` more containers may be opened. -/
  | checked (limit : Nat)
  /-- It is skipped, so numbers, strings and depth may be anything that the grammar admits. -/
  | skipped
  deriving DecidableEq, Repr

namespace Scrutiny

/-- How the parts of a container are read. -/
def inside : Scrutiny → Except ReadError Scrutiny
  | checked 0 => .error .tooDeep
  | checked (limit + 1) => .ok (checked limit)
  | skipped => .ok skipped

/-- The value of a token. One that is wanted must have a value; anything stands for one that is
skipped. -/
def value {α : Type} (how : Scrutiny) (e : ReadError) (anything : α) :
    Option α → Except ReadError α
  | some a => .ok a
  | none =>
    match how with
    | checked _ => .error e
    | skipped => .ok anything

end Scrutiny

mutual

/-- Read one value. Every call takes a token or hands the same tokens to a reader further down,
so a few steps per token suffice. -/
def readValue : Nat → Scrutiny → List Token → Except ReadError (Json × List Token)
  | 0, _, _ => .error .unexpectedEnd
  | fuel + 1, how, input =>
    match input with
    | [] => .error .unexpectedEnd
    | .null :: rest => .ok (.null, rest)
    | .bool b :: rest => .ok (.bool b, rest)
    | .number n :: rest =>
      (how.value .numberOutOfRange .null (n.map .number)).map fun j => (j, rest)
    | .string s :: rest =>
      (how.value .unpairedSurrogate .null (s.map .string)).map fun j => (j, rest)
    | .openArray :: rest =>
      match how.inside with
      | .error e => .error e
      | .ok inner =>
        match rest with
        | .closeArray :: tail => .ok (.array [], tail)
        | _ => readItems fuel inner [] rest
    | .openObject :: rest =>
      match how.inside with
      | .error e => .error e
      | .ok inner =>
        match rest with
        | .closeObject :: tail => .ok (.object [], tail)
        | _ => readMembers fuel inner (fun _ => inner) [] rest
    | _ :: _ => .error .unexpectedToken

/-- Read the items of an array up to its closing bracket, those found so far held in reverse. -/
def readItems : Nat → Scrutiny → List Json → List Token → Except ReadError (Json × List Token)
  | 0, _, _, _ => .error .unexpectedEnd
  | fuel + 1, how, found, input =>
    match readValue fuel how input with
    | .error e => .error e
    | .ok (j, .comma :: rest) => readItems fuel how (j :: found) rest
    | .ok (j, .closeArray :: rest) => .ok (.array (j :: found).reverse, rest)
    | .ok (_, []) => .error .unexpectedEnd
    | .ok (_, _ :: _) => .error .unexpectedToken

/-- Read the members of an object up to its closing bracket, those found so far in reverse. The
value of each is read as `member` says for its key. -/
def readMembers : Nat → Scrutiny → (String → Scrutiny) → List (String × Json) → List Token →
    Except ReadError (Json × List Token)
  | 0, _, _, _, _ => .error .unexpectedEnd
  | fuel + 1, how, member, found, input =>
    match input with
    | .string text :: .colon :: rest =>
      match how.value .unpairedSurrogate "" text with
      | .error e => .error e
      | .ok key =>
        match readValue fuel (member key) rest with
        | .error e => .error e
        | .ok (j, .comma :: tail) => readMembers fuel how member ((key, j) :: found) tail
        | .ok (j, .closeObject :: tail) => .ok (.object ((key, j) :: found).reverse, tail)
        | .ok (_, []) => .error .unexpectedEnd
        | .ok (_, _ :: _) => .error .unexpectedToken
    | [] => .error .unexpectedEnd
    | _ :: _ => .error .unexpectedToken

end

/-- The nesting depth up to which stored files are read. -/
def fileDepthLimit : Nat := 127

/-- The steps that suffice for reading tokens. -/
def stepsFor (input : List Token) : Nat :=
  2 * input.length + 1

/-- The value read, after which no token may be left. -/
def wholeValue : Json × List Token → Except ReadError Json
  | (j, []) => .ok j
  | (_, _ :: _) => .error .trailingText

/-- The value of a whole text whose containers nest at most `limit` deep. -/
def parse (limit : Nat) (text : String) : Except ReadError Json := do
  let input ← tokens text.toList
  wholeValue (← readValue (stepsFor input) (.checked limit) input)

/-- The value of a whole text whose containers nest at most `limit` deep. If it is an object, the
members that are not among the fields are skipped. -/
def parseRecord (fields : List String) (limit : Nat) (text : String) : Except ReadError Json := do
  let input ← tokens text.toList
  match input with
  | .openObject :: .string key :: rest =>
    let inner ← Scrutiny.inside (.checked limit)
    let member (key : String) : Scrutiny := if fields.contains key then inner else .skipped
    wholeValue (← readMembers (stepsFor input) inner member [] (.string key :: rest))
  | _ => wholeValue (← readValue (stepsFor input) (.checked limit) input)

end Json

end MathKernel
