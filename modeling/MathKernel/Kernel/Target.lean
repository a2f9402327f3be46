/-!
# Output languages

Code is written for two families: shader code in GLSL ES and scalar code in JavaScript. A target
is one language version. Shader code is the same text in both versions; they differ in how
arrays and not-a-number reach a program.
-/

namespace MathKernel

/-- The families that a kernel holds code for. -/
inductive Family where
  | shader
  | scalar
  deriving DecidableEq, Repr

/-- The name of a family. -/
def Family.name : Family → String
  | shader => "shader"
  | scalar => "scalar"

/-- The output languages. -/
inductive Target where
  /-- GLSL ES 1.00, which has no array constructors and no bit casts. -/
  | glsl100
  /-- GLSL ES 3.00. -/
  | glsl300
  /-- JavaScript. -/
  | js
  deriving DecidableEq, Repr

/-- A name that is no target's. -/
structure UnknownTarget where
  name : String
  deriving DecidableEq, Repr

/-- What the error says. -/
def UnknownTarget.message (e : UnknownTarget) : String :=
  "unknown target '" ++ e.name ++ "' (expected glsl100, glsl300, or js)"

namespace Target

/-- Every target. -/
def all : List Target := [glsl100, glsl300, js]

/-- The name of a target. -/
def name : Target → String
  | glsl100 => "glsl100"
  | glsl300 => "glsl300"
  | js => "js"

/-- The target of a name in any case; two have a second name. Lower case is needed of ASCII
letters alone, because no other character becomes a letter of these names. -/
def ofName (text : String) : Except UnknownTarget Target :=
  match text.toLower with
  | "glsl100" | "glsl" => .ok glsl100
  | "glsl300" => .ok glsl300
  | "js" | "javascript" => .ok js
  | _ => .error ⟨text⟩

/-- The family whose code a target uses. -/
def family : Target → Family
  | glsl100 | glsl300 => .shader
  | js => .scalar

/-- Whether arrays have to be bound from outside the program. -/
def arraysAsUniforms : Target → Bool
  | glsl100 => true
  | glsl300 | js => false

end Target

end MathKernel
