/-!
# Scalar element types

Every declaration ends in one of four element types. The many C spellings of a type collapse
onto them.
-/

namespace MathKernel

/-- The element type of a variable, parameter or result. -/
inductive ScalarType where
  | int
  | float
  | bool
  | void
  deriving DecidableEq, Repr

namespace ScalarType

/-- Every element type. -/
def all : List ScalarType := [.int, .float, .bool, .void]

/-- The spelling of the type, which is also the name of the coercion function to it. -/
def cName : ScalarType → String
  | int => "int"
  | float => "float"
  | bool => "bool"
  | void => "void"

/-- The type with the given spelling. -/
def ofCName? (name : String) : Option ScalarType :=
  all.find? (·.cName == name)

/-- Whether values of the type take part in arithmetic. -/
def isNumeric : ScalarType → Bool
  | int | float => true
  | bool | void => false

/-- What one word of a C type says: `some (some t)` fixes the type, `some none` is a size or
sign of an integer, and `none` is outside the supported types. -/
def specifier? : String → Option (Option ScalarType)
  | "float" | "double" => some (some float)
  | "void" => some (some void)
  | "_Bool" | "bool" => some (some bool)
  | "int" | "char" | "short" | "long" | "signed" | "unsigned" => some none
  | _ => none

/-- The type that a list of C type words names. The last word that fixes a type decides; words
that give only a size or sign name an integer. -/
def ofNames? (names : List String) : Option ScalarType := do
  let roles ← names.mapM specifier?
  match roles.reverse.findSome? id with
  | some type => some type
  | none => if names.isEmpty then none else some int

end ScalarType

end MathKernel
