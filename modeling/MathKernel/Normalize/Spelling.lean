import MathKernel.Syntax.Traversal
import MathKernel.Normalize.Tally

/-!
# Canonical spellings of types and literals

Every type is spelled by the single word of its element type. Integer and character literals
become decimal integers; floating literals lose their suffixes and carry a point or an exponent.

## Main definitions

* `Literal.canonical?`: the canonical form of a literal.
* `SourceUnit.respell`: the pass.
-/

namespace MathKernel

namespace Literal

/-- Whether a character marks an exponent. -/
def isExponentMark (c : Char) : Bool :=
  c == 'e' || c == 'E'

/-- The part before an exponent, with a digit after its point; without an exponent a point is
added. -/
def completeMantissa (mantissa : List Char) (hasExponent : Bool) : List Char :=
  if mantissa.getLast? = some '.' then mantissa ++ ['0']
  else if mantissa.contains '.' || hasExponent then mantissa
  else mantissa ++ ['.', '0']

/-- The canonical text of a floating literal: `1.5` for `1.5f`, `1.0` for `1.`, `0.5` for `.5`,
`2.0` for `2`; `1e5` stays. -/
def canonicalFloat? (text : List Char) : Option (List Char) :=
  match readFloat? text with
  | none => none
  | some _ =>
    let trimmed := dropFloatSuffix text
    let padded := if trimmed.head? = some '.' then '0' :: trimmed else trimmed
    let mantissa := padded.takeWhile fun c => !isExponentMark c
    let exponent := padded.dropWhile fun c => !isExponentMark c
    some (completeMantissa mantissa (!exponent.isEmpty) ++ exponent.map Char.toLower)

/-- The canonical form of a numeric literal whose value can be read. -/
def canonical? (literal : Literal) : Option Literal :=
  match literal.kind with
  | .int | .char => literal.intValue?.map fun n => ⟨.int, toString n⟩
  | .float => (canonicalFloat? literal.text.toList).map fun t => ⟨.float, String.ofList t⟩
  | .string => none

end Literal

/-- The canonical form of a literal that is not in it. -/
def Expr.respelled? : Expr → Option Expr
  | .literal value c =>
    match value.canonical? with
    | some normal => if normal = value then none else some (.literal normal c)
    | none => none
  | _ => none

/-- Spell an element type by its one word. -/
def ElementType.respell (t : ElementType) : Counted ElementType :=
  if t.names = [t.scalar.cName] then pure t
  else .change { t with names := [t.scalar.cName] }

mutual

/-- Spell the types of a declaration. -/
def Decl.respellType : Decl → Counted Decl
  | ⟨name, quals, storage, type, init, c⟩ => do
    let type ← Declarator.respell type
    pure ⟨name, quals, storage, type, init, c⟩

/-- Spell the types of a declarator, those of its parameters included. -/
def Declarator.respell : Declarator Decl → Counted (Declarator Decl)
  | .element t => do
    let t ← t.respell
    pure (.element t)
  | .array item size c => do
    let item ← Declarator.respell item
    pure (.array item size c)
  | .function params result c => do
    let params ← Declarator.respellParams params
    let result ← Declarator.respell result
    pure (.function params result c)

/-- Spell the types of parameters. -/
def Declarator.respellParams : List Decl → Counted (List Decl)
  | [] => pure []
  | d :: rest => do
    let d ← d.respellType
    let rest ← Declarator.respellParams rest
    pure (d :: rest)

end

/-- Spell the literals of an expression. -/
def Expr.respell (e : Expr) : Counted Expr :=
  e.bottomUpM (Counted.replace Expr.respelled?)

/-- Spell the types of a declaration and the literals of its size and initializer. -/
def Decl.respell (d : Decl) : Counted Decl := do
  let d ← d.respellType
  d.mapExprsM Expr.respell

/-- Spell the declarations of an initializer clause. -/
def ForInit.respell : Option ForInit → Counted (Option ForInit)
  | none => pure none
  | some (.decls ds) => do
    let ds ← ds.mapM Decl.respell
    pure (some (.decls ds))
  | some (.expr e) => do
    let e ← e.respell
    pure (some (.expr e))

namespace Stmt

mutual

/-- Spell the types and literals of a statement. -/
def respell : Stmt → Counted Stmt
  | decl d c => do
    let d ← d.respell
    pure (decl d c)
  | block items b c => do
    let items ← respellList items
    pure (block items b c)
  | expr e c => do
    let e ← e.respell
    pure (expr e c)
  | ifThen p t c => do
    let p ← p.respell
    let t ← t.respell
    pure (ifThen p t c)
  | ifElse p t e c => do
    let p ← p.respell
    let t ← t.respell
    let e ← e.respell
    pure (ifElse p t e c)
  | forLoop init cond next body c => do
    let init ← ForInit.respell init
    let cond ← mapOptionM Expr.respell cond
    let next ← mapOptionM Expr.respell next
    let body ← body.respell
    pure (forLoop init cond next body c)
  | whileLoop p body c => do
    let p ← p.respell
    let body ← body.respell
    pure (whileLoop p body c)
  | doWhile p body c => do
    let p ← p.respell
    let body ← body.respell
    pure (doWhile p body c)
  | ret value c => do
    let value ← mapOptionM Expr.respell value
    pure (ret value c)
  | label n s c => do
    let s ← s.respell
    pure (label n s c)
  | brk c => pure (brk c)
  | cont c => pure (cont c)
  | goto l c => pure (goto l c)
  | empty c => pure (empty c)

/-- Spell the types and literals of statements. -/
def respellList : List Stmt → Counted (List Stmt)
  | [] => pure []
  | s :: rest => do
    let s ← s.respell
    let rest ← respellList rest
    pure (s :: rest)

end

end Stmt

/-- Spell an item: the types of its declaration, and the literals of a global or a body. -/
def Item.respell : Item → Counted Item
  | .decl d => do
    let d ← d.respell
    pure (.decl d)
  | .func f => do
    let items ← Stmt.respellList f.body.items
    let type ← f.decl.type.respell
    pure (.func { f with decl := { f.decl with type }, body := { f.body with items } })

/-- Put every type and literal of a unit into its canonical spelling. -/
def SourceUnit.respell (u : SourceUnit) : SourceUnit × Tally :=
  let result := u.mapItemsM Item.respell
  (result.value, .ofChanged result.count)

end MathKernel
