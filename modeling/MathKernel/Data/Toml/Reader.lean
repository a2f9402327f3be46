import MathKernel.Data.Toml.Scalar

/-!
# TOML documents: reading

A document is a sequence of lines: headers that open tables, keys with values, comments. Values
may span lines inside arrays and multi-line strings.

## Main definitions

* `Toml.readValue`: a value.
* `Toml.parse`: the members of a document.
-/

namespace MathKernel

namespace Toml

/-- Blanks within a line. -/
def isBlank (c : Char) : Bool :=
  c == ' ' || c == '\t'

/-- Skip blanks within a line. -/
def skipBlanks (text : List Char) : List Char :=
  text.dropWhile isBlank

/-- Whether a character may not stand in a string or comment. -/
def isControl (c : Char) : Bool :=
  (c.toNat < 32 && c != '\t') || c.toNat == 127

/-- The text after a line break. -/
def afterBreak? : List Char → Option (List Char)
  | '\n' :: rest => some rest
  | '\r' :: '\n' :: rest => some rest
  | _ => none

/-- Skip a comment up to its line break. -/
def skipComment (text : List Char) : Except TomlError (List Char) :=
  match text with
  | '#' :: rest =>
    let tail := rest.dropWhile (!isControl ·)
    if tail = [] ∨ (afterBreak? tail).isSome then .ok tail else .error .controlCharacter
  | _ => .ok text

/-! ### Strings -/

/-- The character of a code. -/
def charOf? (digits : List Char) : Except TomlError Char :=
  match (if digits.all isHexDigit then readDigits? 16 digits else none) with
  | some n => if n.isValidChar then .ok (Char.ofNat n) else .error .invalidEscape
  | none => .error .invalidEscape

/-- The character of a one-letter escape. -/
def simpleEscape? : Char → Option Char
  | 'b' => some '\x08'
  | 't' => some '\t'
  | 'n' => some '\n'
  | 'f' => some '\x0c'
  | 'r' => some '\r'
  | '"' => some '"'
  | '\\' => some '\\'
  | _ => none

/-- Read a string in double quotes after its opening quote, the characters so far in reverse. -/
def readBasic (reversed : List Char) : List Char → Except TomlError (String × List Char)
  | [] => .error .unexpectedEnd
  | '"' :: rest => .ok (String.ofList reversed.reverse, rest)
  | '\\' :: 'u' :: a :: b :: c :: d :: rest => do
    readBasic ((← charOf? [a, b, c, d]) :: reversed) rest
  | '\\' :: 'U' :: a :: b :: c :: d :: e :: f :: g :: h :: rest => do
    readBasic ((← charOf? [a, b, c, d, e, f, g, h]) :: reversed) rest
  | '\\' :: e :: rest =>
    match simpleEscape? e with
    | some c => readBasic (c :: reversed) rest
    | none => .error .invalidEscape
  | c :: rest =>
    if isControl c then .error .controlCharacter else readBasic (c :: reversed) rest

/-- Read a string in single quotes after its opening quote. -/
def readLiteral (text : List Char) : Except TomlError (String × List Char) :=
  let content := text.takeWhile fun c => c != '\'' && !isControl c
  match text.dropWhile fun c => c != '\'' && !isControl c with
  | '\'' :: rest => .ok (String.ofList content, rest)
  | [] => .error .unexpectedEnd
  | _ => .error .controlCharacter

/-- Read a string in three double quotes. After a backslash at the end of a line, blanks and
line breaks are skipped. Up to two quotes may stand before the closing ones. -/
def readLongBasic (skipping : Bool) (reversed : List Char) :
    List Char → Except TomlError (String × List Char)
  | [] => .error .unexpectedEnd
  | '"' :: '"' :: '"' :: '"' :: '"' :: rest =>
    .ok (String.ofList ('"' :: '"' :: reversed).reverse, rest)
  | '"' :: '"' :: '"' :: '"' :: rest => .ok (String.ofList ('"' :: reversed).reverse, rest)
  | '"' :: '"' :: '"' :: rest => .ok (String.ofList reversed.reverse, rest)
  | '\\' :: 'u' :: a :: b :: c :: d :: rest => do
    readLongBasic false ((← charOf? [a, b, c, d]) :: reversed) rest
  | '\\' :: 'U' :: a :: b :: c :: d :: e :: f :: g :: h :: rest => do
    readLongBasic false ((← charOf? [a, b, c, d, e, f, g, h]) :: reversed) rest
  | '\\' :: e :: rest =>
    match simpleEscape? e with
    | some c => readLongBasic false (c :: reversed) rest
    | none =>
      if (afterBreak? (skipBlanks (e :: rest))).isSome then readLongBasic true reversed rest
      else .error .invalidEscape
  | '\r' :: '\n' :: rest =>
    readLongBasic skipping (if skipping then reversed else '\n' :: reversed) rest
  | '\n' :: rest =>
    readLongBasic skipping (if skipping then reversed else '\n' :: reversed) rest
  | c :: rest =>
    if isControl c then .error .controlCharacter
    else if skipping && isBlank c then readLongBasic true reversed rest
    else readLongBasic false (c :: reversed) rest

/-- Read a string in three single quotes. -/
def readLongLiteral (reversed : List Char) : List Char → Except TomlError (String × List Char)
  | [] => .error .unexpectedEnd
  | '\'' :: '\'' :: '\'' :: '\'' :: '\'' :: rest =>
    .ok (String.ofList ('\'' :: '\'' :: reversed).reverse, rest)
  | '\'' :: '\'' :: '\'' :: '\'' :: rest => .ok (String.ofList ('\'' :: reversed).reverse, rest)
  | '\'' :: '\'' :: '\'' :: rest => .ok (String.ofList reversed.reverse, rest)
  | '\r' :: '\n' :: rest => readLongLiteral ('\n' :: reversed) rest
  | c :: rest =>
    if isControl c && c != '\n' then .error .controlCharacter
    else readLongLiteral (c :: reversed) rest

/-- Drop a line break right after opening quotes. -/
def dropFirstBreak (text : List Char) : List Char :=
  (afterBreak? text).getD text

/-! ### Keys -/

/-- Characters of keys without quotes. -/
def isBareKeyChar (c : Char) : Bool :=
  c.isAlphanum || c == '_' || c == '-'

/-- Read one part of a key. -/
def readKeyPart : List Char → Except TomlError (String × List Char)
  | [] => .error .unexpectedEnd
  | '"' :: rest => readBasic [] rest
  | '\'' :: rest => readLiteral rest
  | c :: rest =>
    if isBareKeyChar c then
      .ok (String.ofList (c :: rest.takeWhile isBareKeyChar), rest.dropWhile isBareKeyChar)
    else .error (.unexpectedChar c)

/-- Arrays and inline tables nest at most this deep, and a key has at most so many parts. -/
def depthLimit : Nat := 79

/-- Read a key, whose parts are divided by dots. The number of parts is limited. -/
def readKeyParts : Nat → List Char → Except TomlError (List String × List Char)
  | 0, _ => .error .tooDeep
  | fuel + 1, text => do
    let (part, rest) ← readKeyPart (skipBlanks text)
    match skipBlanks rest with
    | '.' :: tail =>
      let (parts, tail) ← readKeyParts fuel tail
      return (part :: parts, tail)
    | tail => return ([part], tail)

/-- Read a key. -/
def readKey (text : List Char) : Except TomlError (List String × List Char) :=
  readKeyParts depthLimit text

/-! ### Values -/

/-- Skip blanks, line breaks and comments; each step skips at least one character. -/
def skipLines : Nat → List Char → Except TomlError (List Char)
  | 0, text => .ok text
  | fuel + 1, text => do
    let text ← skipComment (skipBlanks text)
    match afterBreak? text with
    | some rest => skipLines fuel rest
    | none => return text

mutual

/-- Read a value. `depth` more containers may be opened. -/
def readValue : Nat → Nat → List Char → Except TomlError (Toml × List Char)
  | 0, _, _ => .error .unexpectedEnd
  | fuel + 1, depth, text =>
    match text with
    | [] => .error .unexpectedEnd
    | '"' :: '"' :: '"' :: rest =>
      (readLongBasic false [] (dropFirstBreak rest)).map fun (s, tail) => (string s, tail)
    | '"' :: rest => (readBasic [] rest).map fun (s, tail) => (string s, tail)
    | '\'' :: '\'' :: '\'' :: rest =>
      (readLongLiteral [] (dropFirstBreak rest)).map fun (s, tail) => (string s, tail)
    | '\'' :: rest => (readLiteral rest).map fun (s, tail) => (string s, tail)
    | '[' :: rest =>
      match depth with
      | 0 => .error .tooDeep
      | depth + 1 => readItems fuel depth [] rest
    | '{' :: rest =>
      match depth with
      | 0 => .error .tooDeep
      | depth + 1 =>
        match skipBlanks rest with
        | '}' :: tail => .ok (table .inline [], tail)
        | tail => readPairs fuel depth [] tail
    | c :: rest =>
      let (word, tail) := splitScalar (c :: rest)
      match scalar? word with
      | some v => .ok (v, tail)
      | none =>
        if word = [] then .error (.unexpectedChar c)
        else .error (.invalidScalar (String.ofList word))

/-- Read the items of an array up to its closing bracket, those so far in reverse. -/
def readItems : Nat → Nat → List Toml → List Char → Except TomlError (Toml × List Char)
  | 0, _, _, _ => .error .unexpectedEnd
  | fuel + 1, depth, found, text => do
    match ← skipLines text.length text with
    | ']' :: rest => return (array found.reverse, rest)
    | text =>
      let (v, rest) ← readValue fuel depth text
      match ← skipLines rest.length rest with
      | ',' :: tail => readItems fuel depth (v :: found) tail
      | ']' :: tail => return (array (v :: found).reverse, tail)
      | [] => .error .unexpectedEnd
      | c :: _ => .error (.unexpectedChar c)

/-- Read the pairs of an inline table up to its closing brace. -/
def readPairs : Nat → Nat → Members → List Char → Except TomlError (Toml × List Char)
  | 0, _, _, _ => .error .unexpectedEnd
  | fuel + 1, depth, members, text => do
    let (keys, rest) ← readKey text
    match rest with
    | '=' :: rest =>
      let (v, rest) ← readValue fuel depth (skipBlanks rest)
      let members ← insertPair keys v members
      match skipBlanks rest with
      | ',' :: tail => readPairs fuel depth members tail
      | '}' :: tail => return (table .inline members, tail)
      | [] => .error .unexpectedEnd
      | c :: _ => .error (.unexpectedChar c)
    | [] => .error .unexpectedEnd
    | c :: _ => .error (.unexpectedChar c)

end

/-! ### Documents -/

/-- The text after the end of a line: blanks, a comment and a line break. -/
def endLine (text : List Char) : Except TomlError (List Char) := do
  match ← skipComment (skipBlanks text) with
  | [] => return []
  | c :: rest =>
    match afterBreak? (c :: rest) with
    | some tail => return tail
    | none => .error (.unexpectedChar c)

/-- The text after a closing mark. -/
def afterMark (mark text : List Char) : Except TomlError (List Char) :=
  if mark.isPrefixOf text then .ok (text.drop mark.length)
  else match text with
    | [] => .error .unexpectedEnd
    | c :: _ => .error (.unexpectedChar c)

/-- Read the lines of a document. `path` leads to the table that the last header opened. Each
step takes at least one character. -/
def readLines : Nat → List String → Members → List Char → Except TomlError Members
  | 0, _, members, _ => .ok members
  | fuel + 1, path, members, text => do
    let text ← skipLines text.length text
    match text with
    | [] => return members
    | '[' :: '[' :: rest =>
      let (keys, rest) ← readKey rest
      let rest ← afterMark [']', ']'] rest
      let rest ← endLine rest
      let members ← appendTable keys members
      readLines fuel keys members rest
    | '[' :: rest =>
      let (keys, rest) ← readKey rest
      let rest ← afterMark [']'] rest
      let rest ← endLine rest
      let members ← openTable keys members
      readLines fuel keys members rest
    | text =>
      let (keys, rest) ← readKey text
      let rest ← afterMark ['='] rest
      let rest := skipBlanks rest
      let (v, rest) ← readValue (2 * rest.length + 1) depthLimit rest
      let rest ← endLine rest
      let members ← updateAt false (fun _ => insertPair keys v) none path members
      readLines fuel path members rest

/-- The members of a document; a mark of the byte order may stand before it. -/
def parse (text : String) : Except TomlError Members :=
  let chars := match text.toList with
    | '\uFEFF' :: rest => rest
    | chars => chars
  readLines (chars.length + 1) [] [] chars

end Toml

end MathKernel
