import MathKernel.Data.Json.Record
import MathKernel.Data.Json.Writer
import MathKernel.Kernel.Record

/-!
# Kernels as JSON

Not-a-number is written as null. Absent array lengths and prototypes are left out; absent code
is null. Reading takes the members in any order and ignores those it does not know. Records may
also be lists of their values; the list of a kernel starts with its kind.

## Main definitions

* `Kernel.toJson`, `Kernel.ofJson`: the codec.
* `Kernel.text`, `Kernel.ofText`: the compact text of one kernel.
-/

namespace MathKernel

/-- A member that is left out when it has no value. -/
def Json.presentMember (name : String) (value : Option Json) : List (String × Json) :=
  value.toList.map (name, ·)

/-! ### Writing -/

/-- A number, or null for what is none. -/
def Binary64.toJson (x : Binary64) : Json :=
  if x.isNaN then .null else .number (.float x)

/-- A number or a list of numbers. -/
def Value.toJson : Value Binary64 → Json
  | .scalar number => number.toJson
  | .vector items => .array (items.map Binary64.toJson)

/-- The members of a constant or variable. -/
def ValueKernel.members (k : ValueKernel) : List (String × Json) :=
  [("name", .string k.name), ("ty", .string k.type.cName), ("value", k.value.toJson),
    ("literals", .ofStrings k.literals)]

/-- The record of a parameter. -/
def KernelArg.toJson (a : KernelArg) : Json :=
  .object <| [("name", .string a.name), ("ty", .string a.type.cName), ("index", .ofNat a.index)] ++
    Json.presentMember "array_len" (a.arrayLen.map Json.ofNat)

/-- The record of the names that a function refers to. -/
def Dependencies.toJson (d : Dependencies) : Json :=
  .object [("functions", .ofStrings d.functions.toList),
    ("constants", .ofStrings d.constants.toList), ("variables", .ofStrings d.vars.toList)]

/-- The record of a function's code. -/
def FunctionCode.toJson (c : FunctionCode) : Json :=
  .object (Json.presentMember "prototype" (c.prototype.map Json.string) ++
    [("body", .string c.body)])

/-- The members of a function. -/
def FunctionKernel.members (k : FunctionKernel) : List (String × Json) :=
  [("name", .string k.name), ("args", .array (k.args.map KernelArg.toJson)),
    ("return_type", .string k.returnType.cName), ("deps", k.deps.toJson),
    ("shader", (k.shader.map FunctionCode.toJson).getD .null),
    ("scalar", (k.scalar.map FunctionCode.toJson).getD .null)]

/-- The record of a kernel. -/
def Kernel.toJson (k : Kernel) : Json :=
  .object <| ("kind", .string k.kind.name) :: match k with
    | .constant v | .var v => v.members
    | .function f => f.members

/-- The compact text of a kernel. -/
def Kernel.text (k : Kernel) : String :=
  k.toJson.compact

/-! ### Reading -/

/-- A number; null is not-a-number. -/
def Binary64.ofJson? : Json → Option Binary64
  | .null => some .nan
  | .number (.int n) => some (.ofInt n)
  | .number (.float x) => some x
  | _ => none

/-- A number or a list of numbers. -/
def Value.ofJson? : Json → Option (Value Binary64)
  | .array items => (items.mapM Binary64.ofJson?).map .vector
  | j => (Binary64.ofJson? j).map .scalar

/-- A scalar type by its name, which may also stand as the only key of an object that holds
nothing. -/
def ScalarType.ofJson? : Json → Option ScalarType
  | .string name => ofCName? name
  | .object [(name, .null)] => ofCName? name
  | .object [(name, .object [])] => ofCName? name
  | _ => none

/-- A set of names, in any order. -/
def NameSet.ofJson (j : Json) : Except RecordError NameSet :=
  (j.items (Json.expect Json.string?)).map NameSet.ofList

/-- A constant or variable. -/
def ValueKernel.ofJson (j : Json) : Except RecordError ValueKernel := do
  let members ← j.record ["name", "ty", "value", "literals"] 4
  let name ← Json.field members "name" (Json.expect Json.string?)
  let type ← Json.field members "ty" (Json.expect ScalarType.ofJson?)
  let value ← Json.field members "value" (Json.expect Value.ofJson?)
  let literals ← Json.field members "literals" (Json.items (Json.expect Json.string?))
  return { name, type, value, literals }

/-- A parameter. -/
def KernelArg.ofJson (j : Json) : Except RecordError KernelArg := do
  let members ← j.record ["name", "ty", "index", "array_len"] 3
  let name ← Json.field members "name" (Json.expect Json.string?)
  let type ← Json.field members "ty" (Json.expect ScalarType.ofJson?)
  let index ← Json.field members "index" (Json.expect Json.nat?)
  let arrayLen ← Json.optionalField members "array_len" (Json.expect Json.nat?)
  return { name, type, index, arrayLen }

/-- The names that a function refers to. -/
def Dependencies.ofJson (j : Json) : Except RecordError Dependencies := do
  let members ← j.record ["functions", "constants", "variables"] 3
  let functions ← Json.field members "functions" NameSet.ofJson
  let constants ← Json.field members "constants" NameSet.ofJson
  let vars ← Json.field members "variables" NameSet.ofJson
  return { functions, constants, vars }

/-- A function's code. -/
def FunctionCode.ofJson (j : Json) : Except RecordError FunctionCode := do
  let members ← j.record ["prototype", "body"] 2
  let prototype ← Json.optionalField members "prototype" (Json.expect Json.string?)
  let body ← Json.field members "body" (Json.expect Json.string?)
  return { prototype, body }

/-- A function. -/
def FunctionKernel.ofJson (j : Json) : Except RecordError FunctionKernel := do
  let members ← j.record ["name", "args", "return_type", "deps", "shader", "scalar"] 6
  let name ← Json.field members "name" (Json.expect Json.string?)
  let args ← Json.field members "args" (Json.items KernelArg.ofJson)
  let returnType ← Json.field members "return_type" (Json.expect ScalarType.ofJson?)
  let deps ← Json.field members "deps" Dependencies.ofJson
  let shader ← Json.optionalField members "shader" FunctionCode.ofJson
  let scalar ← Json.optionalField members "scalar" FunctionCode.ofJson
  return { name, args, returnType, deps, shader, scalar }

/-- The kind of a kernel by its word. -/
def KernelKind.ofJson? (j : Json) : Option KernelKind :=
  j.string?.bind KernelKind.ofName?

namespace Kernel

/-- A kernel of the given kind. -/
def ofKind (j : Json) : KernelKind → Except RecordError Kernel
  | .constant => (ValueKernel.ofJson j).map constant
  | .var => (ValueKernel.ofJson j).map var
  | .function => (FunctionKernel.ofJson j).map function

/-- A kernel. -/
def ofJson : Json → Except RecordError Kernel
  | .object members => do
    ofKind (.object members) (← Json.field members "kind" (Json.expect KernelKind.ofJson?))
  | .array (kind :: rest) => do
    ofKind (.array rest) (← kind.expect KernelKind.ofJson?)
  | .array [] => .error (.missingField "kind")
  | _ => .error .notARecord

/-- The kernel of a text. -/
def ofText (text : String) : Except RecordError Kernel := do
  let j ← (Json.parse Json.fileDepthLimit text).mapError RecordError.text
  ofJson j

end Kernel

end MathKernel
