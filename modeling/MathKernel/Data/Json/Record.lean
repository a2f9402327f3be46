import MathKernel.Data.Json.Basic
import MathKernel.Data.Json.Reader

/-!
# JSON values as records

A record reads named members of an object. A member that is read must not occur twice; other
members are ignored. A list stands for the object that has its items under the names of the
fields, in order.

## Main definitions

* `RecordError`: why a value is no record.
* `Json.record`: the members of a record.
* `Json.field`, `Json.optionalField`: the values of members.
-/

namespace MathKernel

/-- Why a text or value is no record of the expected form. -/
inductive RecordError where
  /-- The text is no JSON value. -/
  | text (cause : Json.ReadError)
  /-- Neither an object nor a list. -/
  | notARecord
  /-- A list with too few or too many items. -/
  | wrongLength
  | missingField (name : String)
  | repeatedField (name : String)
  /-- A value of the wrong kind or outside its range. -/
  | invalidValue
  deriving DecidableEq, Repr

/-- What the error says. -/
def RecordError.message : RecordError → String
  | text cause => cause.message
  | notARecord => "expected a record"
  | wrongLength => "invalid number of fields"
  | missingField name => "missing field '" ++ name ++ "'"
  | repeatedField name => "repeated field '" ++ name ++ "'"
  | invalidValue => "invalid value"

namespace Json

/-- The value that a reader finds, which it must. -/
def expect {α : Type} (read : Json → Option α) (j : Json) : Except RecordError α :=
  match read j with
  | some a => .ok a
  | none => .error .invalidValue

/-- The members of a record with the given fields. In a list, only fields after the first `least`
may be missing. -/
def record (fields : List String) (least : Nat) : Json → Except RecordError (List (String × Json))
  | object members => .ok members
  | array items =>
    if least ≤ items.length ∧ items.length ≤ fields.length then .ok (fields.zip items)
    else .error .wrongLength
  | _ => .error .notARecord

/-- The value of a member, if there is one. -/
def field? (members : List (String × Json)) (name : String) : Except RecordError (Option Json) :=
  match members.filter (·.1 == name) with
  | [] => .ok none
  | [(_, j)] => .ok (some j)
  | _ => .error (.repeatedField name)

/-- The value of a member that must be there. -/
def field {α : Type} (members : List (String × Json)) (name : String)
    (read : Json → Except RecordError α) : Except RecordError α := do
  match ← field? members name with
  | some j => read j
  | none => .error (.missingField name)

/-- The value of a member that may be absent or null. -/
def optionalField {α : Type} (members : List (String × Json)) (name : String)
    (read : Json → Except RecordError α) : Except RecordError (Option α) := do
  match ← field? members name with
  | none | some .null => .ok none
  | some j => (read j).map some

/-- The items of a list, each read in the same way. -/
def items {α : Type} (read : Json → Except RecordError α) (j : Json) :
    Except RecordError (List α) := do
  let values ← j.expect array?
  values.mapM read

end Json

end MathKernel
