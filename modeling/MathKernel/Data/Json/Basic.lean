import MathKernel.Data.NameMap
import MathKernel.Number.Binary64

/-!
# JSON values

Objects keep their members in document order, repeated keys included; looking a key up takes the
last of them. The canonical form sorts the keys and keeps one member for each.
-/

namespace MathKernel

/-- A JSON number: an integer that fits 64 bits, signed or unsigned, or a floating-point value. -/
inductive JsonNumber where
  | int (value : Int)
  | float (value : Binary64)
  deriving DecidableEq

/-- A JSON value. -/
inductive Json where
  | null
  | bool (value : Bool)
  | number (value : JsonNumber)
  | string (value : String)
  | array (items : List Json)
  | object (members : List (String × Json))

instance : Inhabited Json := ⟨.null⟩

namespace Json

/-- The word for a value's kind. -/
def kind : Json → String
  | null => "null"
  | bool _ => "bool"
  | number _ => "number"
  | string _ => "string"
  | array _ => "list"
  | object _ => "object"

/-- The value of a string. -/
def string? : Json → Option String
  | string s => some s
  | _ => none

/-- The items of an array. -/
def array? : Json → Option (List Json)
  | array items => some items
  | _ => none

/-- The members of an object. -/
def object? : Json → Option (List (String × Json))
  | object members => some members
  | _ => none

/-- A boolean. -/
def bool? : Json → Option Bool
  | bool b => some b
  | _ => none

/-- An integer. -/
def int? : Json → Option Int
  | number (.int n) => some n
  | _ => none

/-- A natural number. -/
def nat? (j : Json) : Option Nat :=
  j.int?.bind Int.toNat?

/-- An integer as a value. -/
def ofInt (n : Int) : Json :=
  number (.int n)

/-- A natural number as a value. -/
def ofNat (n : Nat) : Json :=
  number (.int n)

/-- An array of strings. -/
def ofStrings (items : List String) : Json :=
  array (items.map string)

/-- The last member with the given key. -/
def lookup (members : List (String × Json)) (key : String) : Option Json :=
  (members.reverse.find? (·.1 == key)).map Prod.snd

/-- The member of an object with the given key. -/
def member? (j : Json) (key : String) : Option Json :=
  j.object?.bind (lookup · key)

mutual

/-- The number of arrays and objects on the deepest path. -/
def depth : Json → Nat
  | null | bool _ | number _ | string _ => 0
  | array items => 1 + itemsDepth items
  | object members => 1 + membersDepth members

/-- The greatest depth of an array's items. -/
def itemsDepth : List Json → Nat
  | [] => 0
  | j :: rest => max j.depth (itemsDepth rest)

/-- The greatest depth of an object's values. -/
def membersDepth : List (String × Json) → Nat
  | [] => 0
  | (_, j) :: rest => max j.depth (membersDepth rest)

end

mutual

/-- The same value with the members of every object sorted and the last of each key kept. -/
def canonical : Json → Json
  | null => null
  | bool b => bool b
  | number n => number n
  | string s => string s
  | array items => array (canonicalItems items)
  | object members => object (canonicalMembers members [])

/-- The canonical forms of an array's items. -/
def canonicalItems : List Json → List Json
  | [] => []
  | j :: rest => j.canonical :: canonicalItems rest

/-- Insert the canonical forms of members into a sorted list. -/
def canonicalMembers : List (String × Json) → List (String × Json) → List (String × Json)
  | [], sorted => sorted
  | (k, j) :: rest, sorted => canonicalMembers rest (insertEntry k j.canonical sorted)

end

end Json

end MathKernel
