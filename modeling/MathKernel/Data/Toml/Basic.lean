import MathKernel.Number.Binary64

/-!
# TOML values

A table remembers how it came about, because that decides which later lines may still add to it:
a header opens a table once, dotted keys add only to tables that dotted keys made, and an inline
table is complete.

## Main definitions

* `Toml`, `TableForm`: values.
* `Toml.insertPair`, `Toml.openTable`, `Toml.appendTable`: what the lines of a document do.
-/

namespace MathKernel

/-- How a table came about. -/
inductive TableForm where
  /-- Opened by a header of its own. -/
  | header
  /-- On the way to a table that a header opened. -/
  | implicit
  /-- On the way to a value under a dotted key. -/
  | dotted
  /-- Written between braces. -/
  | inline
  deriving DecidableEq, Repr

/-- A TOML value. -/
inductive Toml where
  | string (value : String)
  | integer (value : Int)
  | float (value : Binary64)
  | boolean (value : Bool)
  /-- A date, a time or both, as written. -/
  | datetime (text : String)
  | array (items : List Toml)
  | table (form : TableForm) (members : List (String × Toml))
  /-- The tables opened by headers in double brackets. -/
  | tables (items : List (List (String × Toml)))

/-- Why a text is no TOML document. -/
inductive TomlError where
  | unexpectedEnd
  | unexpectedChar (c : Char)
  | controlCharacter
  | invalidEscape
  | invalidScalar (text : String)
  | duplicateKey (key : String)
  | notATable (key : String)
  | tooDeep
  /-- A value that is not of the type its key asks for. -/
  | wrongType (key : String)
  | missingKey (key : String)
  deriving DecidableEq, Repr

/-- What the error says. -/
def TomlError.message (e : TomlError) : String :=
  "TOML parse error: " ++ match e with
    | unexpectedEnd => "unexpected end"
    | unexpectedChar c => "unexpected character '" ++ c.toString ++ "'"
    | controlCharacter => "control character"
    | invalidEscape => "invalid escape"
    | invalidScalar text => "invalid value '" ++ text ++ "'"
    | duplicateKey key => "duplicate key '" ++ key ++ "'"
    | notATable key => "'" ++ key ++ "' is no table"
    | tooDeep => "nested too deeply"
    | wrongType key => "wrong type of '" ++ key ++ "'"
    | missingKey key => "missing key '" ++ key ++ "'"

namespace Toml

/-- The members of a table in order of insertion. -/
abbrev Members := List (String × Toml)

/-- Put another value under a key. -/
def replace (members : Members) (key : String) (value : Toml) : Members :=
  members.map fun (k, v) => if k = key then (k, value) else (k, v)

/-- Change the table that a path leads to, making the tables on the way that are missing. Where
tables were opened by headers in double brackets, the path goes through the last of them. The
change sees the form of the table it is made in; `none` is where the path starts. -/
def updateAt (dotted : Bool) (change : Option TableForm → Members → Except TomlError Members) :
    Option TableForm → List String → Members → Except TomlError Members
  | form, [], members => change form members
  | _, key :: rest, members =>
    match members.lookup key with
    | none => do
      let form := if dotted then .dotted else .implicit
      let inner ← updateAt dotted change (some form) rest []
      return members ++ [(key, table form inner)]
    | some (table form inner) =>
      if form = .inline ∨ (dotted ∧ form = .header) then .error (.duplicateKey key)
      else do
        let inner ← updateAt dotted change (some form) rest inner
        return replace members key (table form inner)
    | some (tables items) =>
      match items.reverse with
      | [] => .error (.notATable key)
      | last :: before => do
        let last ← updateAt dotted change (some .header) rest last
        return replace members key (tables (before.reverse ++ [last]))
    | some _ => .error (.notATable key)

/-- Put a value under a key, dotted or not; the last part of the key must be new, in a table that
only dotted keys made. -/
def insertPair (keys : List String) (value : Toml) (members : Members) :
    Except TomlError Members :=
  match keys.reverse with
  | [] => .error .unexpectedEnd
  | key :: before =>
    let insert (form : Option TableForm) (members : Members) : Except TomlError Members :=
      if before ≠ [] ∧ form ≠ some .dotted then .error (.duplicateKey key)
      else if (members.lookup key).isSome then .error (.duplicateKey key)
      else .ok (members ++ [(key, value)])
    updateAt true insert none before.reverse members

/-- Open a table under a key. -/
def openKey (key : String) (members : Members) : Except TomlError Members :=
  match members.lookup key with
  | none => .ok (members ++ [(key, table .header [])])
  | some (table .implicit inner) => .ok (replace members key (table .header inner))
  | some _ => .error (.duplicateKey key)

/-- Append a table to those under a key. -/
def appendKey (key : String) (members : Members) : Except TomlError Members :=
  match members.lookup key with
  | none => .ok (members ++ [(key, tables [[]])])
  | some (tables items) => .ok (replace members key (tables (items ++ [[]])))
  | some _ => .error (.duplicateKey key)

/-- Act on the last key of a path. -/
def atPath (act : String → Members → Except TomlError Members) (path : List String)
    (members : Members) : Except TomlError Members :=
  match path.reverse with
  | [] => .error .unexpectedEnd
  | key :: before => updateAt false (fun _ => act key) none before.reverse members

/-- The effect of a header in brackets. -/
def openTable : List String → Members → Except TomlError Members :=
  atPath openKey

/-- The effect of a header in double brackets. -/
def appendTable : List String → Members → Except TomlError Members :=
  atPath appendKey

end Toml

end MathKernel
