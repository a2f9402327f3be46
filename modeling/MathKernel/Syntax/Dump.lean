import MathKernel.Data.Json.Reader
import MathKernel.Data.Json.Writer
import MathKernel.Syntax.Tree

/-!
# Reading tree dumps

A dump is a JSON value in which every node is an object with a `_nodetype` tag and an optional
position text. A node is first opened against the tags that may stand in its place, then its
fields are read in a fixed order, so the first fault in that order is the one reported. Fields
that stand for unsupported parts of the language must be empty.

## Main definitions

* `DumpError`: why a value is no dump of a supported unit.
* `Tag`: the node tags.
* `Node.ofJson`: open a value as a node of one of the expected tags.
* `SourceUnit.ofJson`, `SourceUnit.ofText`: read a whole unit.
-/

namespace MathKernel

/-- Why a dump is refused. -/
inductive DumpError where
  /-- The tag is none of the known ones. -/
  | unknownTag (tag : String) (coord : Coord)
  /-- A node of another kind was expected. -/
  | unexpectedNode (expected found : String) (coord : Coord)
  /-- A required field is absent or null. -/
  | missingField (node field : String) (coord : Coord)
  /-- A field has the wrong shape. -/
  | invalidField (node field detail : String) (coord : Coord)
  /-- A construct outside the supported subset. -/
  | unsupported (node detail : String) (coord : Coord)
  /-- The text is no JSON value. -/
  | json (error : Json.ReadError)
  deriving DecidableEq, Repr

namespace DumpError

/-- Where a fault lies. -/
def place : Coord → String
  | some c => "at " ++ c
  | none => "at <unknown>"

/-- What the error says. -/
def message : DumpError → String
  | unknownTag tag c => "unknown node type '" ++ tag ++ "' " ++ place c
  | unexpectedNode expected found c =>
    "expected " ++ expected ++ ", found '" ++ found ++ "' " ++ place c
  | missingField node field c => node ++ " is missing field '" ++ field ++ "' " ++ place c
  | invalidField node field detail c => node ++ "." ++ field ++ ": " ++ detail ++ " " ++ place c
  | unsupported node detail c => "unsupported " ++ node ++ ": " ++ detail ++ " " ++ place c
  | json e => "JSON error: " ++ e.message

end DumpError

/-- The tags of dump nodes. -/
inductive Tag where
  | fileAST | decl | typeDecl | identifierType | funcDecl | paramList | arrayDecl | ptrDecl
  | typename | funcDef | compound | declList | ret | ifStmt | forStmt | whileStmt | doWhile
  | brk | cont | goto | label | emptyStatement
  | id | constant | binaryOp | unaryOp | assignment | ternaryOp | funcCall | exprList | cast
  | arrayRef | initList
  deriving DecidableEq, Repr

namespace Tag

/-- Every tag. -/
def all : List Tag :=
  [fileAST, decl, typeDecl, identifierType, funcDecl, paramList, arrayDecl, ptrDecl, typename,
    funcDef, compound, declList, ret, ifStmt, forStmt, whileStmt, doWhile, brk, cont, goto, label,
    emptyStatement, id, constant, binaryOp, unaryOp, assignment, ternaryOp, funcCall, exprList,
    cast, arrayRef, initList]

/-- The text of a tag. -/
def name : Tag → String
  | fileAST => "FileAST"
  | decl => "Decl"
  | typeDecl => "TypeDecl"
  | identifierType => "IdentifierType"
  | funcDecl => "FuncDecl"
  | paramList => "ParamList"
  | arrayDecl => "ArrayDecl"
  | ptrDecl => "PtrDecl"
  | typename => "Typename"
  | funcDef => "FuncDef"
  | compound => "Compound"
  | declList => "DeclList"
  | ret => "Return"
  | ifStmt => "If"
  | forStmt => "For"
  | whileStmt => "While"
  | doWhile => "DoWhile"
  | brk => "Break"
  | cont => "Continue"
  | goto => "Goto"
  | label => "Label"
  | emptyStatement => "EmptyStatement"
  | id => "ID"
  | constant => "Constant"
  | binaryOp => "BinaryOp"
  | unaryOp => "UnaryOp"
  | assignment => "Assignment"
  | ternaryOp => "TernaryOp"
  | funcCall => "FuncCall"
  | exprList => "ExprList"
  | cast => "Cast"
  | arrayRef => "ArrayRef"
  | initList => "InitList"

/-- The tag with the given text. -/
def ofName? (text : String) : Option Tag :=
  all.find? (·.name == text)

/-- The tags of expressions. -/
def exprs : List Tag :=
  [id, constant, binaryOp, unaryOp, assignment, ternaryOp, funcCall, exprList, cast, arrayRef,
    initList]

/-- The tags of statements; an expression stands for an expression statement. -/
def stmts : List Tag :=
  [decl, compound, ret, ifStmt, forStmt, whileStmt, doWhile, brk, cont, goto, label,
    emptyStatement] ++ exprs

/-- The tags of declarators. -/
def types : List Tag := [typeDecl, funcDecl, arrayDecl, ptrDecl]

/-- Alternatives as they are named in messages. -/
def alternatives (tags : List Tag) : String :=
  " | ".intercalate (tags.map name)

end Tag

/-- An opened node. -/
structure Node where
  tag : Tag
  members : List (String × Json)
  coord : Coord

namespace Node

/-- Open a value as a node of one of the expected tags. -/
def ofJson (expected : List Tag) (j : Json) : Except DumpError Node := do
  let some members := j.object?
    | .error (.unexpectedNode (Tag.alternatives expected) j.kind none)
  let coord := (Json.lookup members "coord").bind Json.string?
  let some tagName := (Json.lookup members "_nodetype").bind Json.string?
    | .error (.missingField "node" "_nodetype" coord)
  let some tag := Tag.ofName? tagName
    | .error (.unknownTag tagName coord)
  if tag ∈ expected then .ok ⟨tag, members, coord⟩
  else .error (.unexpectedNode (Tag.alternatives expected) tagName coord)

/-- A fault in the shape of a field. -/
def invalid {α : Type} (n : Node) (field detail : String) : Except DumpError α :=
  .error (.invalidField n.tag.name field detail n.coord)

/-- A construct that is not supported. -/
def unsupported {α : Type} (n : Node) (detail : String) : Except DumpError α :=
  .error (.unsupported n.tag.name detail n.coord)

/-- A field that may be absent; null counts as absent. -/
def field? (n : Node) (field : String) : Option Json :=
  match Json.lookup n.members field with
  | some .null => none
  | found => found

/-- A required field. -/
def field (n : Node) (field : String) : Except DumpError Json :=
  match n.field? field with
  | some j => .ok j
  | none => .error (.missingField n.tag.name field n.coord)

/-- A required string. -/
def string (n : Node) (field : String) : Except DumpError String := do
  match (← n.field field).string? with
  | some s => .ok s
  | none => n.invalid field "expected a string"

/-- A string that may be absent. -/
def string? (n : Node) (field : String) : Except DumpError (Option String) :=
  match n.field? field with
  | none => .ok none
  | some (.string s) => .ok (some s)
  | some _ => n.invalid field "expected a string"

/-- A list; an absent one is empty. -/
def list (n : Node) (field : String) : Except DumpError (List Json) :=
  match n.field? field with
  | none => .ok []
  | some (.array items) => .ok items
  | some _ => n.invalid field "expected a list"

/-- A list of strings. -/
def strings (n : Node) (field : String) : Except DumpError (List String) := do
  (← n.list field).mapM fun
    | .string s => .ok s
    | _ => n.invalid field "expected a list of strings"

/-- Check that a field for an unsupported feature holds nothing. -/
def expectEmpty (n : Node) (field : String) : Except DumpError Unit :=
  match n.field? field with
  | none | some (.array []) | some (.string "") => .ok ()
  | some j => n.unsupported ("non-empty '" ++ field ++ "': " ++ j.canonical.compact)

/-- The qualifiers of a declaration; only `const` is supported. -/
def qualifiers (n : Node) : Except DumpError (List String) := do
  let quals ← n.strings "quals"
  match quals.find? (· != "const") with
  | some q => n.unsupported ("qualifier '" ++ q ++ "'")
  | none => .ok quals

/-- The storage classes of a declaration. -/
def storage (n : Node) : Except DumpError (List Storage) := do
  (← n.strings "storage").mapM fun s =>
    match Storage.ofKeyword? s with
    | some c => .ok c
    | none => n.unsupported ("storage class '" ++ s ++ "'")

/-- The operator of a node, read by `ofText?`. -/
def operator {α : Type} (n : Node) (ofText? : String → Option α) : Except DumpError α := do
  let text ← n.string "op"
  match ofText? text with
  | some op => .ok op
  | none => n.unsupported ("operator '" ++ text ++ "'")

/-- Whether `part` occurs in `text`. -/
def occursIn (part : List Char) : List Char → Bool
  | [] => part.isEmpty
  | c :: rest => part.isPrefixOf (c :: rest) || occursIn part rest

/-- The category that the type text of a constant names. -/
def literalKind? (type : String) : Option LiteralKind :=
  let mentions (word : String) := occursIn word.toList type.toList
  if mentions "int" then some .int
  else if mentions "float" || mentions "double" then some .float
  else if type = "char" then some .char
  else if type = "string" then some .string
  else none

/-- The literal of a constant. -/
def literal (n : Node) : Except DumpError Literal := do
  let type ← n.string "type"
  match literalKind? type with
  | none => n.invalid "type" ("unknown constant type '" ++ type ++ "'")
  | some kind => return ⟨kind, ← n.string "value"⟩

/-- The element type of a type declaration. -/
def elementType (n : Node) : Except DumpError ElementType := do
  n.expectEmpty "align"
  let quals ← n.qualifiers
  let words ← Node.ofJson [.identifierType] (← n.field "type")
  let names ← words.strings "names"
  match ScalarType.ofNames? names with
  | none => words.unsupported ("type '" ++ " ".intercalate names ++ "'")
  | some scalar =>
    return { declName := ← n.string? "declname", quals, names, scalar, coord := n.coord }

end Node

/-- A parameter list that says only that there are no parameters. -/
def isVoidParams : List Decl → Bool
  | [d] =>
    d.name.isNone && match d.type with
      | .element t => t.scalar = .void
      | _ => false
  | _ => false

/-- The tag was read where an expression was expected. -/
def notAnExpr {α : Type} (n : Node) : Except DumpError α :=
  .error (.unexpectedNode "expression" n.tag.name n.coord)

mutual

/-- The expression of an opened node. Each level of the dump takes one step. -/
def Expr.ofNode : Nat → Node → Except DumpError Expr
  | 0, n => notAnExpr n
  | fuel + 1, n =>
    let child (j : Json) : Except DumpError Expr := do
      Expr.ofNode fuel (← Node.ofJson Tag.exprs j)
    let part (field : String) : Except DumpError Expr := do child (← n.field field)
    match n.tag with
    | .id => return .id (← n.string "name") n.coord
    | .constant => return .literal (← n.literal) n.coord
    | .binaryOp => do
      let op ← n.operator BinaryOp.ofSymbol?
      let left ← part "left"
      return .binary op left (← part "right") n.coord
    | .unaryOp => do
      let op ← n.operator UnaryOp.ofDumpName?
      return .unary op (← part "expr") n.coord
    | .assignment => do
      let op ← n.operator AssignOp.ofSymbol?
      let target ← part "lvalue"
      return .assign op target (← part "rvalue") n.coord
    | .ternaryOp => do
      let cond ← part "cond"
      let onTrue ← part "iftrue"
      return .ternary cond onTrue (← part "iffalse") n.coord
    | .funcCall => do
      let callee ← Node.ofJson Tag.exprs (← n.field "name")
      if callee.tag ≠ .id then callee.unsupported "calls through expressions"
      else
        let args ← match n.field? "args" with
          | none => pure []
          | some j => do (← (← Node.ofJson [.exprList] j).list "exprs").mapM child
        return .call (← callee.string "name") args n.coord
    | .exprList => return .comma (← (← n.list "exprs").mapM child) n.coord
    | .cast => do
      let typename ← Node.ofJson [.typename] (← n.field "to_type")
      typename.expectEmpty "align"
      match ← Declarator.ofJson fuel (← typename.field "type") with
      | .element t => return .cast t.scalar (← part "expr") n.coord
      | _ => typename.unsupported "cast to a non-scalar type"
    | .arrayRef => do
      let array ← part "name"
      return .index array (← part "subscript") n.coord
    | .initList => return .initList (← (← n.list "exprs").mapM child) n.coord
    | _ => notAnExpr n

/-- The declarator of a value. -/
def Declarator.ofJson : Nat → Json → Except DumpError (Declarator Decl)
  | 0, j => .error (.unexpectedNode (Tag.alternatives Tag.types) j.kind none)
  | fuel + 1, j => do
    let n ← Node.ofJson Tag.types j
    match n.tag with
    | .typeDecl => return .element (← n.elementType)
    | .funcDecl => do
      let params ← match n.field? "args" with
        | none => pure []
        | some args => do
          let list ← Node.ofJson [.paramList] args
          let params ← (← list.list "params").mapM fun item => do
            Decl.ofParam fuel (← Node.ofJson [.decl, .typename] item)
          pure (if isVoidParams params then [] else params)
      return .function params (← Declarator.ofJson fuel (← n.field "type")) n.coord
    | .arrayDecl => do
      n.expectEmpty "dim_quals"
      let size ← match n.field? "dim" with
        | none => pure none
        | some e => do pure (some (← Expr.ofNode fuel (← Node.ofJson Tag.exprs e)))
      match ← Declarator.ofJson fuel (← n.field "type") with
      | .array .. => n.unsupported "multi-dimensional arrays"
      | item => return .array item size n.coord
    | _ => n.unsupported "pointer declarators"

/-- The declaration of an opened parameter, which may be a bare type. -/
def Decl.ofParam : Nat → Node → Except DumpError Decl
  | 0, n => notAnExpr n
  | fuel + 1, n =>
    match n.tag with
    | .decl => Decl.ofNode fuel n
    | _ => do
      n.expectEmpty "align"
      let type ← Declarator.ofJson fuel (← n.field "type")
      return { name := none, quals := ← n.strings "quals", storage := [], type, init := none,
               coord := n.coord }

/-- The declaration of an opened node. -/
def Decl.ofNode : Nat → Node → Except DumpError Decl
  | 0, n => notAnExpr n
  | fuel + 1, n => do
    n.expectEmpty "funcspec"
    n.expectEmpty "align"
    n.expectEmpty "bitsize"
    let quals ← n.qualifiers
    let storage ← n.storage
    let type ← Declarator.ofJson fuel (← n.field "type")
    let init ← match n.field? "init" with
      | none => pure none
      | some e => do pure (some (← Expr.ofNode fuel (← Node.ofJson Tag.exprs e)))
    return { name := ← n.string? "name", quals, storage, type, init, coord := n.coord }

end

/-- The expression of a value. -/
def Expr.ofJson (fuel : Nat) (j : Json) : Except DumpError Expr := do
  Expr.ofNode fuel (← Node.ofJson Tag.exprs j)

/-- The expression in a field that may be absent. -/
def Expr.ofField? (fuel : Nat) (n : Node) (field : String) : Except DumpError (Option Expr) :=
  match n.field? field with
  | none => pure none
  | some j => do return some (← Expr.ofJson fuel j)

/-- The declaration of a value. -/
def Decl.ofJson (fuel : Nat) (j : Json) : Except DumpError Decl := do
  Decl.ofNode fuel (← Node.ofJson [.decl] j)

/-- The initializer clause of a loop. -/
def ForInit.ofJson (fuel : Nat) (j : Json) : Except DumpError ForInit := do
  let n ← Node.ofJson (.declList :: Tag.exprs) j
  if n.tag = .declList then return .decls (← (← n.list "decls").mapM (Decl.ofJson fuel))
  else return .expr (← Expr.ofNode fuel n)

/-- The statement of an opened node. -/
def Stmt.ofNode : Nat → Node → Except DumpError Stmt
  | 0, n => notAnExpr n
  | fuel + 1, n =>
    let child (j : Json) : Except DumpError Stmt := do
      Stmt.ofNode fuel (← Node.ofJson Tag.stmts j)
    let childOrEmpty (field : String) : Except DumpError Stmt :=
      match n.field? field with
      | none => pure (.empty none)
      | some j => child j
    let cond : Except DumpError Expr := do Expr.ofJson fuel (← n.field "cond")
    match n.tag with
    | .decl => return .decl (← Decl.ofNode (fuel + 1) n) n.coord
    | .compound => return .block (← (← n.list "block_items").mapM child) n.coord n.coord
    | .ret => return .ret (← Expr.ofField? fuel n "expr") n.coord
    | .ifStmt => do
      let p ← cond
      let onTrue ← childOrEmpty "iftrue"
      match n.field? "iffalse" with
      | none => return .ifThen p onTrue n.coord
      | some j => return .ifElse p onTrue (← child j) n.coord
    | .forStmt => do
      let init ← match n.field? "init" with
        | none => pure none
        | some j => do pure (some (← ForInit.ofJson fuel j))
      let p ← Expr.ofField? fuel n "cond"
      let next ← Expr.ofField? fuel n "next"
      return .forLoop init p next (← childOrEmpty "stmt") n.coord
    | .whileStmt => do
      let p ← cond
      return .whileLoop p (← childOrEmpty "stmt") n.coord
    | .doWhile => do
      let p ← cond
      return .doWhile p (← childOrEmpty "stmt") n.coord
    | .brk => return .brk n.coord
    | .cont => return .cont n.coord
    | .emptyStatement => return .empty n.coord
    | .goto => return .goto (← n.string "name") n.coord
    | .label => do
      let name ← n.string "name"
      return .label name (← childOrEmpty "stmt") n.coord
    | _ => return .expr (← Expr.ofNode (fuel + 1) n) n.coord

/-- The block of a value. -/
def Block.ofJson (fuel : Nat) (j : Json) : Except DumpError Block := do
  let n ← Node.ofJson [.compound] j
  let items ← (← n.list "block_items").mapM fun item => do
    Stmt.ofNode fuel (← Node.ofJson Tag.stmts item)
  return ⟨items, n.coord⟩

/-- The function definition of an opened node. -/
def FuncDef.ofNode (fuel : Nat) (n : Node) : Except DumpError FuncDef := do
  n.expectEmpty "param_decls"
  let decl ← Decl.ofJson fuel (← n.field "decl")
  if !decl.isFunction then
    n.invalid "decl" "function definition without a function declarator"
  else
    return ⟨decl, ← Block.ofJson fuel (← n.field "body"), n.coord⟩

/-- The file-level item of a value. -/
def Item.ofJson (fuel : Nat) (j : Json) : Except DumpError Item := do
  let n ← Node.ofJson [.decl, .funcDef] j
  match n.tag with
  | .decl => return .decl (← Decl.ofNode fuel n)
  | _ => return .func (← FuncDef.ofNode fuel n)

namespace SourceUnit

/-- Read a unit from a dump. A step is taken for each level of the dump, and a second one for
each parameter. -/
def ofJson (j : Json) : Except DumpError SourceUnit := do
  let n ← Node.ofJson [.fileAST] j
  let items ← (← n.list "ext").mapM (Item.ofJson (2 * j.depth + 1))
  return ⟨items, n.coord⟩

/-- Read a unit from the text of a dump. -/
def ofText (text : String) : Except DumpError SourceUnit :=
  match Json.parse Json.fileDepthLimit text with
  | .ok j => ofJson j
  | .error e => .error (.json e)

end SourceUnit

end MathKernel
