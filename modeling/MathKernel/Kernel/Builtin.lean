import MathKernel.Syntax.Printer
import MathKernel.Normalize.CoefficientArrays
import MathKernel.Kernel.Declaration

/-!
# Built-in kernels

The functions that normalized code calls without defining them. Shader code has coercions and
mathematics built in, and scalar code gets thin functions for them. Helpers for polynomials are
made for each array length up to a limit, since shader loops and array parameters need fixed
lengths.

## Main definitions

* `builtinKernels`: all of them, in order.
-/

namespace MathKernel

/-- A parameter of a built-in function. -/
structure BuiltinParam where
  name : String
  type : ScalarType
  /-- The length of an array. -/
  len : Option Nat := none

namespace BuiltinParam

/-- The brackets with the length of an array. -/
def sizeText (p : BuiltinParam) : String :=
  match p.len with
  | some n => "[" ++ toString n ++ "]"
  | none => ""

/-- The record of a parameter. -/
def toArg (index : Nat) (p : BuiltinParam) : KernelArg :=
  { name := p.name, type := p.type, index, arrayLen := p.len }

end BuiltinParam

/-- The head of a built-in function. -/
def builtinSignature (family : Family) (name : String) (result : ScalarType)
    (params : List BuiltinParam) : String :=
  match family with
  | .shader =>
    result.cName ++ " " ++ name ++ "(" ++
      ", ".intercalate (params.map fun p => p.type.cName ++ " " ++ p.name ++ p.sizeText) ++ ")"
  | .scalar =>
    "function " ++ name ++ "(" ++ ", ".intercalate (params.map BuiltinParam.name) ++ ")"

/-- The code of a built-in function with the given lines. -/
def builtinCode (family : Family) (name : String) (result : ScalarType)
    (params : List BuiltinParam) (lines : List String) : FunctionCode :=
  let signature := builtinSignature family name result params
  { prototype := if family = .shader then some (signature ++ ";") else none
    body := lineAt 0 (signature ++ " " ++ openBrace) ++ String.join (lines.map (lineAt 1)) ++
      lineAt 0 closeBrace }

/-- A built-in function, with the lines of its code in each family; shader code may have it
built in. -/
def builtinFunction (name : String) (result : ScalarType) (params : List BuiltinParam)
    (shader : Option (List String)) (scalar : List String) : Kernel :=
  .function
    { name
      args := params.mapIdx BuiltinParam.toArg
      returnType := result
      deps := .none
      shader := shader.map (builtinCode .shader name result params)
      scalar := some (builtinCode .scalar name result params scalar) }

/-- The coercions. -/
def coercionKernels : List Kernel :=
  [builtinFunction "float" .float [⟨"x", .float, none⟩] none ["return +x;"],
    builtinFunction "int" .int [⟨"x", .float, none⟩] none ["return Math.trunc(x);"],
    builtinFunction "bool" .bool [⟨"x", .float, none⟩] none ["return !!x;"]]

/-- Mathematical functions of one argument. -/
def unaryMathNames : List String :=
  ["sin", "cos", "tan", "asin", "acos", "exp", "log", "sqrt", "abs", "floor", "ceil"]

/-- The mathematical functions. The arc tangent takes one argument or two. -/
def mathKernels : List Kernel :=
  (unaryMathNames.map fun name =>
    builtinFunction name .float [⟨"x", .float, none⟩] none ["return Math." ++ name ++ "(x);"]) ++
  builtinFunction "atan" .float [⟨"y", .float, none⟩, ⟨"x", .float, none⟩] none
    ["return x === undefined ? Math.atan(y) : Math.atan2(y, x);"] ::
  (["pow", "min", "max"].map fun name =>
    builtinFunction name .float [⟨"a", .float, none⟩, ⟨"b", .float, none⟩] none
      ["return Math." ++ name ++ "(a, b);"])

/-- Integer functions that neither family has. -/
def integerKernels : List Kernel :=
  [builtinFunction "imod" .int [⟨"a", .int, none⟩, ⟨"b", .int, none⟩]
      (some ["return a - b * (a / b);"]) ["return a % b;"],
    builtinFunction "is_odd" .bool [⟨"x", .int, none⟩]
      (some ["return x - 2 * (x / 2) != 0;"]) ["return (x & 1) !== 0;"]]

/-- The constant for not-a-number. -/
def notANumberKernel : Kernel :=
  .constant
    { name := notANumber, type := .float, value := .scalar .nan, literals := [notANumber] }

/-! ### Polynomials -/

/-- The helpers that evaluate a polynomial. -/
inductive PolynomialHelper where
  /-- Degree `n`, the highest coefficient first. -/
  | polevl
  /-- The same with a leading coefficient of one left out. -/
  | p1evl
  /-- A Chebyshev series of `n` terms. -/
  | chbevl

namespace PolynomialHelper

/-- Every helper. -/
def all : List PolynomialHelper := [polevl, p1evl, chbevl]

/-- The general name of a helper. -/
def name : PolynomialHelper → String
  | polevl => "polevlf"
  | p1evl => "p1evlf"
  | chbevl => "chbevlf"

/-- How a family declares a local of the given type. -/
def declares (family : Family) (type : ScalarType) : String :=
  match family with
  | .shader => type.cName
  | .scalar => "let"

/-- A loop over the coefficients after the first, left when `stop` holds. -/
def loop (family : Family) (len : Nat) (stop : String) (body : List String) : List String :=
  let head := "for (" ++ declares family .int ++ " i = 1; i < " ++ toString len ++ "; i++) "
  [head ++ openBrace, "    if (" ++ stop ++ ") " ++ openBrace, "        break;",
    "    " ++ closeBrace] ++
    body.map ("    " ++ ·) ++ [closeBrace]

/-- The lines of a helper for arrays of a length. The number `n` of coefficients in use ends the
loop from inside, whose bound is fixed. -/
def lines (helper : PolynomialHelper) (family : Family) (len : Nat) : List String :=
  let float := declares family .float
  match helper with
  | polevl =>
    [float ++ " ans = coef[0];"] ++
      loop family len "i > n" ["ans = ans * x + coef[i];"] ++ ["return ans;"]
  | p1evl =>
    [float ++ " ans = x + coef[0];"] ++
      loop family len "i >= n" ["ans = ans * x + coef[i];"] ++ ["return ans;"]
  | chbevl =>
    [float ++ " b0 = coef[0];", float ++ " b1 = 0.0;", float ++ " b2 = 0.0;"] ++
      loop family len "i >= n" ["b2 = b1;", "b1 = b0;", "b0 = x * b1 - b2 + coef[i];"] ++
      ["return 0.5 * (b0 - b2);"]

/-- A helper for arrays of a length. -/
def kernel (helper : PolynomialHelper) (len : Nat) : Kernel :=
  builtinFunction (variantName helper.name len) .float
    [⟨"x", .float, none⟩, ⟨"coef", .float, some len⟩, ⟨"n", .int, none⟩]
    (some (helper.lines .shader len)) (helper.lines .scalar len)

end PolynomialHelper

/-- The greatest array length that helpers are made for. -/
def maxHelperLength : Nat := 32

/-- The helpers for every length. -/
def polynomialKernels : List Kernel :=
  PolynomialHelper.all.flatMap fun helper =>
    (List.range maxHelperLength).map fun n => helper.kernel (n + 1)

/-- Every built-in kernel. -/
def builtinKernels : List Kernel :=
  coercionKernels ++ mathKernels ++ integerKernels ++ [notANumberKernel] ++ polynomialKernels

end MathKernel
