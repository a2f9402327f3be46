import MathKernel.Syntax.Printer
import MathKernel.Kernel.Declaration

/-!
# Code of functions

Both families share C's statements and operators and differ in signatures, declarations,
literals and equality. A unit has to be normalized first: jumps, labels and casts have no code,
and shader code has no loops but `for`.

## Main definitions

* `EmitCause`, `EmitError`: why a function has no code.
* `Expr.emit`, `Stmt.emit`, `FuncDef.emit`: code in a family.
-/

namespace MathKernel

/-- Why a piece of a function has no code. -/
inductive EmitCause where
  | unnamedParameter
  | unsizedParameter (name : String)
  | unnamedLocal
  | unsizedLocal (name : String)
  /-- A local array that is given an expression and not a list. -/
  | arrayFromExpression (name : String)
  | unnamedLoopVariable
  | loopArray (name : String)
  | shaderWhile
  | shaderDoWhile
  | jump (label : String)
  | label (name : String)
  | cast (type : ScalarType)
  | initList
  | malformedLiteral (text : String)
  | stringLiteral
  deriving DecidableEq, Repr

/-- What the cause says. -/
def EmitCause.detail : EmitCause → String
  | unnamedParameter => "unnamed parameter"
  | unsizedParameter name => "array parameter '" ++ name ++ "' has no fixed size"
  | unnamedLocal => "unnamed local declaration"
  | unsizedLocal name => "local array '" ++ name ++ "' has no fixed size"
  | arrayFromExpression name => "array '" ++ name ++ "' initialized from an expression"
  | unnamedLoopVariable => "unnamed loop variable"
  | loopArray name => "array '" ++ name ++ "' declared in a for initializer"
  | shaderWhile => "while loop in shader code"
  | shaderDoWhile => "do-while loop in shader code"
  | jump target => "goto " ++ target
  | label name => "label " ++ name
  | cast type => "cast to " ++ type.cName ++ " left in normalized code"
  | initList => "initializer list outside a declaration"
  | malformedLiteral text => "malformed literal " ++ text
  | stringLiteral => "string literal"

/-- A function without code, and why. -/
structure EmitError where
  function : String
  cause : EmitCause
  deriving DecidableEq, Repr

/-- What the error says. -/
def EmitError.message (e : EmitError) : String :=
  "cannot emit '" ++ e.function ++ "': " ++ e.cause.detail

/-! ### What the families spell differently -/

namespace Family

/-- An operator between two operands. Equality of scalar code does not convert. -/
def binarySymbol : Family → BinaryOp → String
  | scalar, .eq => "==="
  | scalar, .ne => "!=="
  | _, op => op.symbol

/-- A floating literal. Shader code needs a point or an exponent in it. -/
def floatLiteral (family : Family) (text : String) : String :=
  let digits := Literal.dropFloatSuffix text.toList
  match family with
  | shader => String.ofList (if hasPointOrExponent digits then digits else digits ++ ".0".toList)
  | scalar => String.ofList digits

/-- The declaration of a local variable; scalar code gives each one a value. -/
def scalarLocal (family : Family) (type : ScalarType) (name : String) (init : Option String) :
    String :=
  match family, init with
  | shader, some init => type.cName ++ " " ++ name ++ " = " ++ init
  | shader, none => type.cName ++ " " ++ name
  | scalar, some init => "let " ++ name ++ " = " ++ init
  | scalar, none => "let " ++ name ++ " = " ++ (if type = .bool then "false" else "0")

/-- The declaration of a local array, whose items are assigned afterwards. -/
def arrayLocal (family : Family) (type : ScalarType) (name : String) (len : Nat) : String :=
  match family with
  | shader => type.cName ++ " " ++ name ++ "[" ++ toString len ++ "]"
  | scalar => "let " ++ name ++ " = new Array(" ++ toString len ++ ").fill(0)"

end Family

/-- The name of a parameter; one without a name is called by its place. -/
def Decl.argName (index : Nat) (p : Decl) : String :=
  p.name.getD ("_a" ++ toString index)

/-- A parameter of a shader function, which has a name, and a length if it is an array. -/
def Decl.shaderParam (p : Decl) : Except EmitCause String :=
  match p.name with
  | none => .error .unnamedParameter
  | some name =>
    if p.isArray then
      match p.arrayLen? with
      | some len => .ok (p.scalar.cName ++ " " ++ name ++ "[" ++ toString len ++ "]")
      | none => .error (.unsizedParameter name)
    else .ok (p.scalar.cName ++ " " ++ name)

/-- The head of a function. -/
def FuncDef.signature (family : Family) (f : FuncDef) : Except EmitCause String :=
  match family with
  | .shader => do
    let params ← f.params.mapM Decl.shaderParam
    return f.returnType.cName ++ " " ++ f.name ++ "(" ++ ", ".intercalate params ++ ")"
  | .scalar =>
    return "function " ++ f.name ++ "(" ++ ", ".intercalate (f.params.mapIdx Decl.argName) ++ ")"

/-! ### Expressions -/

/-- A literal; integers are written in decimal. -/
def Literal.emit (family : Family) (v : Literal) : Except EmitCause String :=
  match v.kind with
  | .int | .char =>
    match v.intValue? with
    | some n => .ok (toString n)
    | none => .error (.malformedLiteral v.text)
  | .float => .ok (family.floatLiteral v.text)
  | .string => .error .stringLiteral

namespace Expr

mutual

/-- The code of an expression. -/
def emit (family : Family) : Expr → Except EmitCause String
  | id name _ => .ok name
  | literal value _ => value.emit family
  | binary op l r _ => do
    let left ← l.emit family
    let right ← r.emit family
    return parenthesized (l.precedence < op.precedence) left ++ " " ++ family.binarySymbol op ++
      " " ++ parenthesized (r.precedence < op.precedence + 1) right
  | unary op e _ => do
    let operand ← e.emit family
    return if op.isTrailing then parenthesized (e.precedence < 15) operand ++ op.symbol
      else op.symbol ++ parenthesized (op.fuses e || e.precedence < 14) operand
  | assign op t v _ => do
    let target ← t.emit family
    let value ← v.emit family
    return parenthesized (t.precedence < 14) target ++ " " ++ op.symbol ++ " " ++
      parenthesized (v.precedence < 2) value
  | ternary p t e _ => do
    let cond ← p.emit family
    let onTrue ← t.emit family
    let onFalse ← e.emit family
    return parenthesized (p.precedence < 4) cond ++ " ? " ++
      parenthesized (t.precedence < 2) onTrue ++ " : " ++
      parenthesized (e.precedence < 3) onFalse
  | call callee args _ => do
    let args ← emitList family args
    return callee ++ "(" ++ ", ".intercalate args ++ ")"
  | index a i _ => do
    let array ← a.emit family
    let subscript ← i.emit family
    return parenthesized (a.precedence < 15) array ++ "[" ++ subscript ++ "]"
  | comma items _ => do
    let items ← emitList family items
    return ", ".intercalate items
  | cast type _ _ => .error (.cast type)
  | initList _ _ => .error .initList

/-- The codes of the expressions between commas. -/
def emitList (family : Family) : List Expr → Except EmitCause (List String)
  | [] => .ok []
  | e :: rest => do
    let code ← e.emit family
    let codes ← emitList family rest
    return parenthesized (e.precedence < 2) code :: codes

end

/-- The code of an expression that may be absent. -/
def emitOption (family : Family) : Option Expr → Except EmitCause (Option String)
  | none => .ok none
  | some e => (e.emit family).map some

end Expr

/-! ### Declarations -/

/-- The assignments of an array's items, one line each. -/
def itemLines (name : String) (values : List String) (depth : Nat) : String :=
  String.join <| values.mapIdx fun i value =>
    lineAt depth (name ++ "[" ++ toString i ++ "] = " ++ value ++ ";")

/-- The lines of a local declaration. -/
def Decl.emitLocal (family : Family) (d : Decl) : Except EmitCause (Nat → String) :=
  match d.name with
  | none => .error .unnamedLocal
  | some name =>
    if d.isArray then
      match d.arrayLen? with
      | none => .error (.unsizedLocal name)
      | some len => do
        let head := family.arrayLocal d.scalar name len ++ ";"
        match d.init with
        | none => return fun depth => lineAt depth head
        | some (.initList items _) =>
          let values ← items.mapM (Expr.emit family)
          return fun depth => lineAt depth head ++ itemLines name values depth
        | some _ => .error (.arrayFromExpression name)
    else do
      let init ← Expr.emitOption family d.init
      return fun depth => lineAt depth (family.scalarLocal d.scalar name init ++ ";")

/-- The variable that a `for` loop declares, with its type and initial value. -/
def Decl.emitLoopVariable (family : Family) (d : Decl) :
    Except EmitCause (ScalarType × String × Option String) :=
  match d.name with
  | none => .error .unnamedLoopVariable
  | some name =>
    if d.isArray then .error (.loopArray name)
    else (Expr.emitOption family d.init).map fun init => (d.scalar, name, init)

/-- A further variable in the declaration of another. -/
def furtherVariable (name : String) : Option String → String
  | some init => name ++ " = " ++ init
  | none => name

/-- The initializer clause of a `for` loop. -/
def ForInit.emit (family : Family) : Option ForInit → Except EmitCause String
  | none => .ok ""
  | some (.expr e) => e.emit family
  | some (.decls ds) => do
    match ← ds.mapM (Decl.emitLoopVariable family) with
    | [] => return ""
    | (type, name, init) :: rest =>
      return ", ".intercalate (family.scalarLocal type name init ::
        rest.map fun (_, name, init) => furtherVariable name init)

/-! ### Statements -/

namespace Stmt

mutual

/-- The code of a statement. -/
def emit (family : Family) : Stmt → Except EmitCause StmtLines
  | decl d _ => (d.emitLocal family).map StmtLines.ofLines
  | block items _ _ => (emitList family items).map StmtLines.ofItems
  | expr e _ => do
    let code ← e.emit family
    return .ofLines fun depth => lineAt depth (code ++ ";")
  | ifThen p t _ => do
    let cond ← p.emit family
    let onTrue ← t.emit family
    return .ofCond cond fun depth => onTrue.braced depth ++ lineAt depth closeBrace
  | ifElse p t e _ => do
    let cond ← p.emit family
    let onTrue ← t.emit family
    let onFalse ← e.emit family
    return .ofCond cond fun depth => onTrue.braced depth ++ onFalse.otherwise depth
  | forLoop init cond next body _ => do
    let init ← ForInit.emit family init
    let cond ← Expr.emitOption family cond
    let next ← Expr.emitOption family next
    let body ← body.emit family
    return .ofLoop ("for (" ++ init ++ "; " ++ cond.getD "" ++ "; " ++ next.getD "" ++ ")") body ""
  | whileLoop p body _ =>
    match family with
    | .shader => .error .shaderWhile
    | .scalar => do
      let cond ← p.emit family
      let body ← body.emit family
      return .ofLoop ("while (" ++ cond ++ ")") body ""
  | doWhile p body _ =>
    match family with
    | .shader => .error .shaderDoWhile
    | .scalar => do
      let body ← body.emit family
      let cond ← p.emit family
      return .ofLoop "do" body (" while (" ++ cond ++ ");")
  | ret none _ => .ok (.ofLines fun depth => lineAt depth "return;")
  | ret (some e) _ => do
    let code ← e.emit family
    return .ofLines fun depth => lineAt depth ("return " ++ code ++ ";")
  | brk _ => .ok (.ofLines fun depth => lineAt depth "break;")
  | cont _ => .ok (.ofLines fun depth => lineAt depth "continue;")
  | goto l _ => .error (.jump l)
  | label n _ _ => .error (.label n)
  | empty _ => .ok (.ofLines fun _ => "")

/-- The code of statements in order. -/
def emitList (family : Family) : List Stmt → Except EmitCause (Nat → String)
  | [] => .ok fun _ => ""
  | s :: rest => do
    let first ← s.emit family
    let others ← emitList family rest
    return fun depth => first.alone depth ++ others depth

end

end Stmt

/-! ### Functions -/

/-- The code of a function; shader code has a prototype. -/
def FuncDef.code (family : Family) (f : FuncDef) : Except EmitCause FunctionCode := do
  let signature ← f.signature family
  let items ← Stmt.emitList family f.body.items
  return {
    prototype := if family = .shader then some (signature ++ ";") else none
    body := lineAt 0 (signature ++ " " ++ openBrace) ++ items 1 ++ lineAt 0 closeBrace }

/-- The code of a function, or the error that names it. -/
def FuncDef.emit (family : Family) (f : FuncDef) : Except EmitError FunctionCode :=
  (f.code family).mapError fun cause => ⟨f.name, cause⟩

end MathKernel
