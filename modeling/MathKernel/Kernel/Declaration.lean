import MathKernel.Number.Decimal
import MathKernel.Syntax.Literal
import MathKernel.Kernel.Record

/-!
# Declarations of constants and variables

GLSL ES 1.00 can spell neither arrays nor not-a-number, so there such values are uniforms, bound
from outside. Elsewhere a declaration holds the literals of its value.

## Main definitions

* `Target.literalText`: a literal in a target.
* `ValueKernel.isRuntimeUniform`, `ValueKernel.declaration`.
-/

namespace MathKernel

/-- Whether a text has the point or exponent by which a literal is a floating one. -/
def hasPointOrExponent (text : List Char) : Bool :=
  text.any fun c => c == '.' || c == 'e' || c == 'E'

/-- How a family spells not-a-number. -/
def Family.notANumberText : Family → String
  | .shader => "intBitsToFloat(0x7fc00000)"
  | .scalar => "NaN"

namespace Target

/-- A literal of a type in a target. Floating literals of shader code need a point or an
exponent; a text that is no number is left as it is. -/
def literalText (target : Target) (type : ScalarType) (text : String) : String :=
  if text = notANumber then target.family.notANumberText
  else if target.family = .shader ∧ type = .float ∧ (Binary64.ofText? text.toList).isSome ∧
      !hasPointOrExponent text.toList then text ++ ".0"
  else text

/-- The zero of a type in a target. -/
def zeroText (target : Target) : ScalarType → String
  | .bool => "false"
  | .float => if target.family = .shader then "0.0" else "0"
  | .int | .void => "0"

end Target

/-- The values that GLSL ES 1.00 cannot spell: lists and not-a-number. -/
def Value.needsUniform : Value Binary64 → Bool
  | .scalar number => number.isNaN
  | .vector _ => true

namespace ValueKernel

/-- Whether a target gets the value as a uniform. -/
def isRuntimeUniform (k : ValueKernel) (target : Target) : Bool :=
  target.arraysAsUniforms && k.value.needsUniform

/-- The literals in a target. -/
def literalTexts (k : ValueKernel) (target : Target) : List String :=
  k.literals.map (target.literalText k.type)

/-- The first literal in a target, or zero. -/
def firstText (k : ValueKernel) (target : Target) : String :=
  (k.literalTexts target).head?.getD (target.zeroText k.type)

/-- The brackets with the length of an array; nothing for a single number. -/
def sizeText (k : ValueKernel) : String :=
  match k.value.arrayLen? with
  | some n => "[" ++ toString n ++ "]"
  | none => ""

/-- The right-hand side of a declaration in a family. -/
def initText (k : ValueKernel) (target : Target) : String :=
  match target.family, k.value with
  | _, .scalar _ => k.firstText target
  | .shader, .vector _ =>
    k.type.cName ++ k.sizeText ++ "(" ++ ", ".intercalate (k.literalTexts target) ++ ")"
  | .scalar, .vector _ => "[" ++ ", ".intercalate (k.literalTexts target) ++ "]"

/-- The declaration of a value in a target. -/
def declaration (k : ValueKernel) (target : Target) (constant : Bool) : String :=
  if k.isRuntimeUniform target then "uniform " ++ k.type.cName ++ " " ++ k.name ++ k.sizeText ++ ";"
  else
    match target.family with
    | .shader =>
      (if constant then "const " else "") ++ k.type.cName ++ " " ++ k.name ++ k.sizeText ++ " = " ++
        k.initText target ++ ";"
    | .scalar =>
      (if constant then "const " else "var ") ++ k.name ++ " = " ++ k.initText target ++ ";"

end ValueKernel

/-- The declaration of a constant or variable. -/
def Kernel.declaration? (k : Kernel) (target : Target) : Option String :=
  match k with
  | .constant v => some (v.declaration target true)
  | .var v => some (v.declaration target false)
  | .function _ => none

end MathKernel
