import MathKernel.Link.Resolution

/-!
# Linked programs

The program of an entry point in a target: declarations of the constants and variables it needs,
prototypes, then functions, with a blank line between parts.

## Main definitions

* `Linker.program`: the program.
* `Linker.runtimeUniforms`: the values to bind from outside for GLSL ES 1.00.
-/

namespace MathKernel

namespace Linker

/-- The declarations of resolved constants and variables. -/
def declarations (l : Linker) (r : Resolution) (target : Target) : List String :=
  ((r.constants.filterMap l.constant?).map (·.declaration target true)) ++
    (r.vars.filterMap l.var?).map (·.declaration target false)

/-- The code of resolved functions in a family; functions that are built in there have none. -/
def codes (l : Linker) (r : Resolution) (family : Family) : List FunctionCode :=
  (r.functions.filterMap l.function?).filterMap (·.code? family)

/-- Lines that form one part of a program; no lines form none. -/
def lineSection (lines : List String) : List String :=
  if lines.isEmpty then [] else ["\n".intercalate lines ++ "\n"]

/-- The parts of a program. -/
def sections (l : Linker) (r : Resolution) (target : Target) : List String :=
  let codes := l.codes r target.family
  lineSection (l.declarations r target) ++ lineSection (codes.filterMap FunctionCode.prototype) ++
    codes.map FunctionCode.body

/-- The program of an entry point, which must have code of its own in the target. -/
def program (l : Linker) (entry : String) (target : Target) : Except LinkError String := do
  let r ← l.resolve entry
  match (l.function? entry).bind (·.code? target.family) with
  | none => .error (.missingCode entry target)
  | some _ => return "\n".intercalate (l.sections r target)

/-- The resolved constants and variables. -/
def resolvedValues (l : Linker) (r : Resolution) : List ValueKernel :=
  r.constants.filterMap l.constant? ++ r.vars.filterMap l.var?

/-- The values that the program of an entry point in GLSL ES 1.00 takes as uniforms, by name. -/
def runtimeUniforms (l : Linker) (entry : String) :
    Except LinkError (NameMap (List Binary64)) := do
  let r ← l.resolve entry
  let uniforms := (l.resolvedValues r).filter (·.isRuntimeUniform .glsl100)
  return .ofList (uniforms.map fun k => (k.name, k.value.numbers))

end Linker

end MathKernel
