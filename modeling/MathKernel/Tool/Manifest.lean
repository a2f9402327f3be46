import MathKernel.Data.Toml.Reader
import MathKernel.Kernel.Extraction

/-!
# Manifests

A project's settings: which variables change, which names are exported and which target is meant
when none is given. Everything may be left out, and what is not known is ignored; a project that
is described must have a name. A section is a table, a list of its fields in order, or a date,
which has none of the fields.
-/

namespace MathKernel

/-- The settings of a project. -/
structure Manifest where
  /-- The project's name. -/
  project : Option String
  vars : Option (List String)
  exports : Option (List String)
  target : Option String
  deriving DecidableEq, Repr

namespace Manifest

/-- The name of manifest files. -/
def fileName : String := "ckern.toml"

/-- The settings where there is no manifest. -/
def default : Manifest := ⟨none, none, none, none⟩

/-- The fields of a section; a list gives them in order, and a date has none. -/
def fields (names : List String) (key : String) : Toml → Except TomlError Toml.Members
  | .table _ members => .ok members
  | .datetime _ => .ok []
  | .array items => .ok (names.zip items)
  | .tables items => .ok (names.zip (items.map (Toml.table .header)))
  | _ => .error (.wrongType key)

/-- A section that may be left out. -/
def readSection {α : Type} (members : Toml.Members) (key : String) (names : List String)
    (absent : α) (read : Toml.Members → Except TomlError α) : Except TomlError α := do
  match members.lookup key with
  | none => return absent
  | some v => read (← fields names key v)

/-- A text. -/
def readString (key : String) : Toml → Except TomlError String
  | .string s => .ok s
  | _ => .error (.wrongType key)

/-- A list of texts. -/
def readStrings (key : String) : Toml → Except TomlError (List String)
  | .array items => items.mapM (readString key)
  | _ => .error (.wrongType key)

/-- A field that may be left out. -/
def readField {α : Type} (members : Toml.Members) (key : String)
    (read : String → Toml → Except TomlError α) : Except TomlError (Option α) :=
  match members.lookup key with
  | none => .ok none
  | some v => (read key v).map some

/-- The name of a project, which must be there. -/
def readProject (members : Toml.Members) : Except TomlError (Option String) := do
  match ← readField members "name" readString with
  | some name => return some name
  | none => .error (.missingKey "name")

/-- The settings in the members of a document. -/
def ofMembers (members : Toml.Members) : Except TomlError Manifest := do
  let project ← readSection members "project" ["name"] none readProject
  let (vars, exports) ← readSection members "compile" ["variables", "exports"] (none, none)
    fun section_ => do
      let vars ← readField section_ "variables" readStrings
      let exports ← readField section_ "exports" readStrings
      return (vars, exports)
  let target ← readSection members "export" ["target"] none fun section_ =>
    readField section_ "target" readString
  return { project, vars, exports, target }

/-- The settings in a text. -/
def ofText (text : String) : Except TomlError Manifest := do
  ofMembers (← Toml.parse text)

/-- What to take from units. -/
def extractConfig (m : Manifest) : ExtractConfig :=
  match m.vars with
  | some vars => { vars, exports := m.exports }
  | none => { exports := m.exports }

end Manifest

end MathKernel
