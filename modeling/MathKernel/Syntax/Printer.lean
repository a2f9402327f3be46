import MathKernel.Syntax.Tree

/-!
# C texts of syntax trees

Parentheses are inserted from binding strengths, and around a nested unary operator whose first
character would fuse with the outer one. Bodies of control statements are always braced.

## Main definitions

* `Expr.text`, `Decl.text`, `Stmt.text`, `FuncDef.text`, `Item.text`, `SourceUnit.text`.
-/

namespace MathKernel

/-- The text of an opening brace. -/
def openBrace : String := '{'.toString

/-- The text of a closing brace. -/
def closeBrace : String := '}'.toString

/-- Put parentheses around a text when asked to. -/
def parenthesized (wrap : Bool) (text : String) : String :=
  if wrap then "(" ++ text ++ ")" else text

/-- Whether a unary operator would run into the operator of its operand: `-` before `-x`. -/
def UnaryOp.fuses (op : UnaryOp) : Expr → Bool
  | .unary inner _ _ =>
    !inner.isTrailing && op.symbol.toList.getLast? == inner.symbol.toList.head?
  | _ => false

namespace Expr

mutual

/-- The text of an expression. -/
def text : Expr → String
  | id name _ => name
  | literal value _ => value.text
  | binary op l r _ =>
    parenthesized (l.precedence < op.precedence) l.text ++ " " ++ op.symbol ++ " " ++
      parenthesized (r.precedence < op.precedence + 1) r.text
  | unary op e _ =>
    if op.isTrailing then parenthesized (e.precedence < 15) e.text ++ op.symbol
    else op.symbol ++ parenthesized (op.fuses e || e.precedence < 14) e.text
  | assign op t v _ =>
    parenthesized (t.precedence < 14) t.text ++ " " ++ op.symbol ++ " " ++
      parenthesized (v.precedence < 2) v.text
  | ternary p t e _ =>
    parenthesized (p.precedence < 4) p.text ++ " ? " ++
      parenthesized (t.precedence < 2) t.text ++ " : " ++
      parenthesized (e.precedence < 3) e.text
  | call callee args _ => callee ++ "(" ++ ", ".intercalate (listTexts args) ++ ")"
  | cast type e _ => "(" ++ type.cName ++ ") " ++ parenthesized (e.precedence < 14) e.text
  | index a i _ => parenthesized (a.precedence < 15) a.text ++ "[" ++ i.text ++ "]"
  | initList items _ => openBrace ++ ", ".intercalate (listTexts items) ++ closeBrace
  | comma items _ => ", ".intercalate (listTexts items)

/-- The texts of the expressions between commas. -/
def listTexts : List Expr → List String
  | [] => []
  | e :: rest => parenthesized (e.precedence < 2) e.text :: listTexts rest

end

/-- The text of an expression that may be absent. -/
def optionText (e : Option Expr) : String :=
  (e.map text).getD ""

end Expr

namespace Decl

/-- Each word followed by a blank. -/
def wordsText (words : List String) : String :=
  String.join (words.map (· ++ " "))

/-- The text ` = init`, or nothing. -/
def initText (init : Option Expr) : String :=
  match init with
  | some e => " = " ++ e.text
  | none => ""

mutual

/-- The text `storage qualifiers type declarator = init`. -/
def text : Decl → String
  | ⟨name, quals, storage, type, init, _⟩ =>
    let declarator := declaratorText (name.getD "") type
    wordsText (storage.map Storage.keyword) ++ wordsText quals ++
      type.elementType.scalar.cName ++
      (if declarator.isEmpty then "" else " " ++ declarator) ++ initText init

/-- The text of a declared name with what is made of its element type. -/
def declaratorText (name : String) : Declarator Decl → String
  | .element _ => name
  | .array item size _ => declaratorText name item ++ "[" ++ Expr.optionText size ++ "]"
  | .function params result _ =>
    declaratorText name result ++ "(" ++
      (if params.isEmpty then "void" else ", ".intercalate (paramTexts params)) ++ ")"

/-- The texts of parameters. -/
def paramTexts : List Decl → List String
  | [] => []
  | d :: rest => d.text :: paramTexts rest

end

/-- A further declaration that shares the type words of the one before it. -/
def continuationText (d : Decl) : String :=
  declaratorText (d.name.getD "") d.type ++ initText d.init

/-- Declarations that share their type words. -/
def listText : List Decl → String
  | [] => ""
  | d :: rest => ", ".intercalate (d.text :: rest.map continuationText)

end Decl

/-- The text of an initializer clause. -/
def ForInit.text : Option ForInit → String
  | none => ""
  | some (.decls ds) => Decl.listText ds
  | some (.expr e) => e.text

/-- A line at a nesting depth. -/
def lineAt (depth : Nat) (text : String) : String :=
  String.ofList (List.replicate (4 * depth) ' ') ++ text ++ "\n"

/-- The lines of a statement at a nesting depth, in each place it can stand. -/
structure StmtLines where
  /-- By itself. -/
  alone : Nat → String
  /-- Between braces that are written around it. -/
  braced : Nat → String
  /-- As the last branch of a conditional, closing brace included. -/
  otherwise : Nat → String

namespace StmtLines

/-- Lines that stand one step deeper between braces, and after `else` in braces of their own. -/
def ofLines (lines : Nat → String) : StmtLines where
  alone := lines
  braced depth := lines (depth + 1)
  otherwise depth :=
    lineAt depth (closeBrace ++ " else " ++ openBrace) ++ lines (depth + 1) ++
      lineAt depth closeBrace

/-- The lines of a block, which needs no second pair of braces. -/
def ofItems (items : Nat → String) : StmtLines where
  alone depth := lineAt depth openBrace ++ items (depth + 1) ++ lineAt depth closeBrace
  braced depth := items (depth + 1)
  otherwise depth :=
    lineAt depth (closeBrace ++ " else " ++ openBrace) ++ items (depth + 1) ++
      lineAt depth closeBrace

/-- The lines of a conditional, which continues a chain after `else`. -/
def ofCond (cond : String) (branches : Nat → String) : StmtLines where
  alone depth := lineAt depth ("if (" ++ cond ++ ") " ++ openBrace) ++ branches depth
  braced depth := lineAt (depth + 1) ("if (" ++ cond ++ ") " ++ openBrace) ++ branches (depth + 1)
  otherwise depth :=
    lineAt depth (closeBrace ++ " else if (" ++ cond ++ ") " ++ openBrace) ++ branches depth

/-- A head, a body in braces and what follows the closing brace. -/
def ofLoop (head : String) (body : StmtLines) (tail : String) : StmtLines :=
  ofLines fun depth =>
    lineAt depth (head ++ " " ++ openBrace) ++ body.braced depth ++
      lineAt depth (closeBrace ++ tail)

end StmtLines

namespace Stmt

mutual

/-- The lines of a statement. A label stands one step further out than its statement. -/
def lines : Stmt → StmtLines
  | decl d _ => .ofLines fun depth => lineAt depth (d.text ++ ";")
  | block items _ _ => .ofItems (listLines items)
  | expr e _ => .ofLines fun depth => lineAt depth (e.text ++ ";")
  | ifThen p t _ =>
    .ofCond p.text fun depth => t.lines.braced depth ++ lineAt depth closeBrace
  | ifElse p t e _ =>
    .ofCond p.text fun depth => t.lines.braced depth ++ e.lines.otherwise depth
  | forLoop init cond next body _ =>
    .ofLoop ("for (" ++ ForInit.text init ++ "; " ++ Expr.optionText cond ++ "; " ++
      Expr.optionText next ++ ")") body.lines ""
  | whileLoop p body _ => .ofLoop ("while (" ++ p.text ++ ")") body.lines ""
  | doWhile p body _ => .ofLoop "do" body.lines (" while (" ++ p.text ++ ");")
  | ret (some e) _ => .ofLines fun depth => lineAt depth ("return " ++ e.text ++ ";")
  | ret none _ => .ofLines fun depth => lineAt depth "return;"
  | brk _ => .ofLines fun depth => lineAt depth "break;"
  | cont _ => .ofLines fun depth => lineAt depth "continue;"
  | goto l _ => .ofLines fun depth => lineAt depth ("goto " ++ l ++ ";")
  | label n s _ => .ofLines fun depth =>
    lineAt (depth - 1) (n ++ ":") ++ s.lines.alone (depth - 1 + 1)
  | empty _ => .ofLines fun depth => lineAt depth ";"

/-- The lines of statements in order. -/
def listLines : List Stmt → Nat → String
  | [], _ => ""
  | s :: rest, depth => s.lines.alone depth ++ listLines rest depth

end

/-- The text of a statement by itself. -/
def text (s : Stmt) : String :=
  s.lines.alone 0

end Stmt

/-- The text of a function definition. -/
def FuncDef.text (f : FuncDef) : String :=
  lineAt 0 (f.decl.text ++ " " ++ openBrace) ++ Stmt.listLines f.body.items 1 ++ lineAt 0 closeBrace

/-- The text of a file-level item. -/
def Item.text : Item → String
  | .decl d => lineAt 0 (d.text ++ ";")
  | .func f => f.text

/-- The text of a unit; a blank line stands before every function that is not the first item. -/
def SourceUnit.text (u : SourceUnit) : String :=
  String.join <| u.items.mapIdx fun i item =>
    if 0 < i && item.isFunc then "\n" ++ item.text else item.text

end MathKernel
