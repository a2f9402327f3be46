import MathKernel.Syntax.ScalarType
import MathKernel.Syntax.Operator
import MathKernel.Syntax.Literal

/-!
# Syntax trees of the C subset

Expressions, declarations, statements and whole units. Each node carries the position text of
the dump it was read from; positions appear in messages and nowhere else.

## Main definitions

* `Expr`, `Decl`, `Stmt`, `Block`, `FuncDef`, `Item`, `SourceUnit`: the tree.
* `Expr.precedence`: binding strength of an expression.
* `Decl.arrayLen?`: the length of a declared array.
-/

namespace MathKernel

/-- Position text of a node, if the dump gave one. -/
abbrev Coord := Option String

/-- Expressions. -/
inductive Expr where
  | id (name : String) (coord : Coord)
  | literal (value : Literal) (coord : Coord)
  | binary (op : BinaryOp) (left right : Expr) (coord : Coord)
  | unary (op : UnaryOp) (operand : Expr) (coord : Coord)
  | assign (op : AssignOp) (target value : Expr) (coord : Coord)
  | ternary (cond onTrue onFalse : Expr) (coord : Coord)
  | call (callee : String) (args : List Expr) (coord : Coord)
  | cast (type : ScalarType) (operand : Expr) (coord : Coord)
  | index (array subscript : Expr) (coord : Coord)
  | initList (items : List Expr) (coord : Coord)
  | comma (items : List Expr) (coord : Coord)

namespace Expr

/-- The position of an expression. -/
def coord : Expr → Coord
  | id _ c | literal _ c | binary _ _ _ c | unary _ _ c | assign _ _ _ c | ternary _ _ _ c
  | call _ _ c | cast _ _ c | index _ _ c | initList _ c | comma _ c => c

/-- An integer literal in decimal. -/
def int (value : Int) (coord : Coord) : Expr :=
  literal ⟨.int, toString value⟩ coord

/-- A floating literal with the given text. -/
def float (text : String) (coord : Coord) : Expr :=
  literal ⟨.float, text⟩ coord

/-- The name of an identifier. -/
def idName? : Expr → Option String
  | id name _ => some name
  | _ => none

/-- The value of an integer or character literal. -/
def intLiteral? : Expr → Option Int
  | literal value _ => value.intValue?
  | _ => none

/-- Binding strength; higher binds tighter. -/
def precedence : Expr → Nat
  | comma .. => 1
  | assign .. => 2
  | ternary .. => 3
  | binary op .. => op.precedence
  | unary op .. => if op.isTrailing then 15 else 14
  | cast .. => 14
  | call .. | index .. => 15
  | id .. | literal .. | initList .. => 16

end Expr

/-- The element type at the end of a declarator. -/
structure ElementType where
  /-- Name declared at this point of the dump. -/
  declName : Option String
  quals : List String
  /-- The type's words as written. -/
  names : List String
  scalar : ScalarType
  coord : Coord

/-- An element type spelled by its own name. -/
def ElementType.ofScalar (declName : Option String) (scalar : ScalarType) : ElementType :=
  { declName, quals := [], names := [scalar.cName], scalar, coord := none }

/-- What a declaration makes of its element type; `δ` is the type of parameter declarations. -/
inductive Declarator (δ : Type) where
  | element (type : ElementType)
  | function (params : List δ) (result : Declarator δ) (coord : Coord)
  | array (item : Declarator δ) (size : Option Expr) (coord : Coord)

namespace Declarator

variable {δ : Type}

/-- The element type at the end. -/
def elementType : Declarator δ → ElementType
  | element type => type
  | function _ result _ => result.elementType
  | array item _ _ => item.elementType

/-- Change the element type at the end. -/
def mapElement (f : ElementType → ElementType) : Declarator δ → Declarator δ
  | element type => element (f type)
  | function params result coord => function params (result.mapElement f) coord
  | array item size coord => array (item.mapElement f) size coord

end Declarator

/-- A declaration of a variable, parameter or function. -/
structure Decl where
  name : Option String
  quals : List String
  storage : List Storage
  type : Declarator Decl
  init : Option Expr
  coord : Coord

namespace Decl

/-- The scalar variable `scalar name = init`. -/
def ofScalar (name : String) (scalar : ScalarType) (init : Option Expr) : Decl :=
  { name := some name, quals := [], storage := [],
    type := .element (.ofScalar (some name) scalar), init, coord := none }

/-- The array variable `scalar name[len] = init`. -/
def ofArray (name : String) (scalar : ScalarType) (len : Option Nat) (init : Option Expr) :
    Decl :=
  { name := some name, quals := [], storage := [],
    type := .array (.element (.ofScalar (some name) scalar)) (len.map fun n => .int n none) none,
    init, coord := none }

/-- The prototype `result name(params)`. -/
def prototype (name : String) (result : ScalarType) (params : List Decl) : Decl :=
  { name := some name, quals := [], storage := [],
    type := .function params (.element (.ofScalar (some name) result)) none,
    init := none, coord := none }

/-- Whether the declaration has static storage. -/
def isStatic (d : Decl) : Bool :=
  d.storage.contains .static

/-- Whether the declaration refers to a definition elsewhere. -/
def isExternal (d : Decl) : Bool :=
  d.storage.contains .external

/-- Whether the declaration is qualified constant. -/
def isConst (d : Decl) : Bool :=
  d.quals.contains "const"

/-- Whether a function is declared. -/
def isFunction (d : Decl) : Bool :=
  match d.type with
  | .function .. => true
  | _ => false

/-- Whether an array is declared. -/
def isArray (d : Decl) : Bool :=
  match d.type with
  | .array .. => true
  | _ => false

/-- The element type. -/
def scalar (d : Decl) : ScalarType :=
  d.type.elementType.scalar

/-- The parameters of a declared function. -/
def params (d : Decl) : List Decl :=
  match d.type with
  | .function params _ _ => params
  | _ => []

/-- The number of items of an initializer list. -/
def initLen? (d : Decl) : Option Nat :=
  match d.init with
  | some (.initList items _) => some items.length
  | _ => none

/-- The length of a declared array: its size if that is a literal, else the number of items of
its initializer list. A negative size is no length. -/
def arrayLen? (d : Decl) : Option Nat :=
  match d.type with
  | .array _ size _ =>
    match size.bind Expr.intLiteral? with
    | some n => n.toNat?
    | none => d.initLen?
  | _ => none

/-- Rename the declaration, at its element type too. -/
def rename (d : Decl) (name : String) : Decl :=
  { d with
    name := some name
    type := d.type.mapElement fun t => { t with declName := some name } }

end Decl

/-- The initializer clause of a `for` loop. -/
inductive ForInit where
  | decls (decls : List Decl)
  | expr (expr : Expr)

/-- Statements. -/
inductive Stmt where
  | decl (decl : Decl) (coord : Coord)
  | block (items : List Stmt) (blockCoord : Coord) (coord : Coord)
  | expr (expr : Expr) (coord : Coord)
  | ifThen (cond : Expr) (onTrue : Stmt) (coord : Coord)
  | ifElse (cond : Expr) (onTrue onFalse : Stmt) (coord : Coord)
  | forLoop (init : Option ForInit) (cond next : Option Expr) (body : Stmt) (coord : Coord)
  | whileLoop (cond : Expr) (body : Stmt) (coord : Coord)
  | doWhile (cond : Expr) (body : Stmt) (coord : Coord)
  | ret (value : Option Expr) (coord : Coord)
  | brk (coord : Coord)
  | cont (coord : Coord)
  | goto (label : String) (coord : Coord)
  | label (name : String) (stmt : Stmt) (coord : Coord)
  | empty (coord : Coord)

namespace Stmt

/-- The position of a statement. -/
def coord : Stmt → Coord
  | decl _ c | block _ _ c | expr _ c | ifThen _ _ c | ifElse _ _ _ c | forLoop _ _ _ _ c
  | whileLoop _ _ c | doWhile _ _ c | ret _ c | brk c | cont c | goto _ c | label _ _ c
  | empty c => c

/-- The declaration that is the statement. -/
def decl? : Stmt → Option Decl
  | decl d _ => some d
  | _ => none

/-- Whether the statement is a return. -/
def isReturn : Stmt → Bool
  | ret .. => true
  | _ => false

end Stmt

/-- A braced list of statements. -/
structure Block where
  items : List Stmt
  coord : Coord

/-- A function with its body. -/
structure FuncDef where
  decl : Decl
  body : Block
  coord : Coord

namespace FuncDef

/-- The function's name; an unnamed one has the empty name. -/
def name (f : FuncDef) : String :=
  f.decl.name.getD ""

/-- The type of the result. -/
def returnType (f : FuncDef) : ScalarType :=
  f.decl.scalar

/-- The parameters. -/
def params (f : FuncDef) : List Decl :=
  f.decl.params

/-- The prototype that declares this function. -/
def prototype (f : FuncDef) : Decl :=
  { f.decl with init := none }

end FuncDef

/-- A file-level item. -/
inductive Item where
  | decl (decl : Decl)
  | func (func : FuncDef)

namespace Item

/-- The declared name. -/
def name? : Item → Option String
  | decl d => d.name
  | func f => f.decl.name

/-- The declaration that the item makes. -/
def toDecl : Item → Decl
  | decl d => d
  | func f => f.decl

/-- The declaration that is the item. -/
def decl? : Item → Option Decl
  | decl d => some d
  | func _ => none

/-- Whether the item is a function definition. -/
def isFunc : Item → Bool
  | decl _ => false
  | func _ => true

end Item

/-- One compiled source file. -/
structure SourceUnit where
  items : List Item
  coord : Coord

namespace SourceUnit

/-- The function definitions in order. -/
def funcs (u : SourceUnit) : List FuncDef :=
  u.items.filterMap fun
    | .func f => some f
    | .decl _ => none

/-- The names that are declared at file level. -/
def itemNames (u : SourceUnit) : List String :=
  u.items.filterMap Item.name?

/-- The first definition of a function. -/
def func? (u : SourceUnit) (name : String) : Option FuncDef :=
  u.funcs.find? (·.name == name)

end SourceUnit

end MathKernel
