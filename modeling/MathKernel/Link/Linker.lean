import MathKernel.Data.NameMap
import MathKernel.Kernel.Builtin

/-!
# Registered kernels

A linker holds the kernels of any number of units in three tables, one for each kind. A kernel
replaces an earlier one of its kind and name.

## Main definitions

* `Linker.register`, `Linker.registerAll`, `Linker.withBuiltins`.
* `Linker.function?`, `Linker.constant?`, `Linker.var?`.
-/

namespace MathKernel

/-- The registered kernels by kind and name. -/
structure Linker where
  constants : NameMap ValueKernel
  vars : NameMap ValueKernel
  functions : NameMap FunctionKernel

namespace Linker

/-- A linker without kernels. -/
def empty : Linker := ⟨.empty, .empty, .empty⟩

/-- Register a kernel, over one of its kind and name. -/
def register (l : Linker) : Kernel → Linker
  | .constant k => { l with constants := l.constants.insert k.name k }
  | .var k => { l with vars := l.vars.insert k.name k }
  | .function k => { l with functions := l.functions.insert k.name k }

/-- Register kernels in order. -/
def registerAll (l : Linker) (kernels : List Kernel) : Linker :=
  kernels.foldl register l

/-- A linker with the built-in kernels. -/
def withBuiltins : Linker :=
  empty.registerAll builtinKernels

/-- A registered function. -/
def function? (l : Linker) (name : String) : Option FunctionKernel :=
  l.functions.get? name

/-- A registered constant. -/
def constant? (l : Linker) (name : String) : Option ValueKernel :=
  l.constants.get? name

/-- A registered variable. -/
def var? (l : Linker) (name : String) : Option ValueKernel :=
  l.vars.get? name

/-- The number of kernels. -/
def size (l : Linker) : Nat :=
  l.constants.size + l.vars.size + l.functions.size

end Linker

end MathKernel
