import MathKernel.Data.NameSet
import MathKernel.Number.Binary64
import MathKernel.Syntax.ScalarType
import MathKernel.Kernel.Target

/-!
# Kernels

A kernel is one named item of a compiled unit: a constant, a variable or a function, with all
that linking needs. Functions carry finished code for each family and the names they refer to.

## Main definitions

* `Value`, `ValueKernel`: constants and variables.
* `Dependencies`, `FunctionCode`, `FunctionKernel`: functions.
* `Kernel`: any of them.
-/

namespace MathKernel

/-- A number or a list of numbers. -/
inductive Value (ν : Type) where
  | scalar (number : ν)
  | vector (items : List ν)
  deriving DecidableEq

namespace Value

variable {ν : Type}

/-- The length of a list. -/
def arrayLen? : Value ν → Option Nat
  | scalar _ => none
  | vector items => some items.length

/-- The numbers; a single number is a list of one. -/
def numbers : Value ν → List ν
  | scalar number => [number]
  | vector items => items

end Value

/-- A constant or variable. -/
structure ValueKernel where
  name : String
  /-- The type of a number. -/
  type : ScalarType
  value : Value Binary64
  /-- The text of each number. -/
  literals : List String
  deriving DecidableEq

/-- A parameter of a function. -/
structure KernelArg where
  name : String
  type : ScalarType
  index : Nat
  /-- The length of an array. -/
  arrayLen : Option Nat
  deriving DecidableEq

/-- The names that a function refers to. -/
structure Dependencies where
  functions : NameSet
  constants : NameSet
  vars : NameSet
  deriving DecidableEq

namespace Dependencies

/-- No names. -/
def none : Dependencies := ⟨.empty, .empty, .empty⟩

/-- The number of names. -/
def size (d : Dependencies) : Nat :=
  d.functions.size + d.constants.size + d.vars.size

/-- All names: functions, then constants, then variables. -/
def names (d : Dependencies) : List String :=
  d.functions.toList ++ d.constants.toList ++ d.vars.toList

end Dependencies

/-- The code of a function in one family. -/
structure FunctionCode where
  /-- A forward declaration, where the language needs one. -/
  prototype : Option String
  body : String
  deriving DecidableEq

/-- A function; a family without code for it has it built in. -/
structure FunctionKernel where
  name : String
  args : List KernelArg
  returnType : ScalarType
  deps : Dependencies
  shader : Option FunctionCode
  scalar : Option FunctionCode
  deriving DecidableEq

/-- The code in a family. -/
def FunctionKernel.code? (f : FunctionKernel) : Family → Option FunctionCode
  | .shader => f.shader
  | .scalar => f.scalar

/-- The kinds of kernels. -/
inductive KernelKind where
  | constant
  | var
  | function
  deriving DecidableEq, Repr

namespace KernelKind

/-- The word for a kind. -/
def name : KernelKind → String
  | constant => "constant"
  | var => "variable"
  | function => "function"

/-- The kind of a word. -/
def ofName? : String → Option KernelKind
  | "constant" => some constant
  | "variable" => some var
  | "function" => some function
  | _ => none

end KernelKind

/-- A kernel. -/
inductive Kernel where
  | constant (value : ValueKernel)
  | var (value : ValueKernel)
  | function (function : FunctionKernel)
  deriving DecidableEq

namespace Kernel

/-- The name of a kernel. -/
def name : Kernel → String
  | constant k | var k => k.name
  | function k => k.name

/-- The kind of a kernel. -/
def kind : Kernel → KernelKind
  | constant _ => .constant
  | var _ => .var
  | function _ => .function

/-- The record of a constant or variable. -/
def value? : Kernel → Option ValueKernel
  | constant k | var k => some k
  | function _ => none

/-- The record of a function. -/
def function? : Kernel → Option FunctionKernel
  | constant _ | var _ => none
  | function k => some k

/-- The names that a kernel refers to. -/
def references (k : Kernel) : List String :=
  match k.function? with
  | some f => f.deps.names
  | none => []

end Kernel

end MathKernel
