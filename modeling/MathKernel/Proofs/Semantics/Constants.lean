import MathKernel.Kernel.Extraction
import MathKernel.Proofs.Semantics.Scalars

/-!
# Values of constants

What C assigns to the variables of a file: a constant expression is found by the usual arithmetic
conversions from literals and the constants before it, the result is converted to the declared
type, and the items that the initializer of an array does not give are zero. Numbers are exact, and
nothing is divided by zero.

## Main definitions

* `Expr.constant?` — the value of a constant expression
* `Decl.assigned?`, `SourceUnit.assigned` — the values of initialized variables
-/

namespace MathKernel

/-- The values of constants by their names. -/
abbrev ConstantValues := String → Option (Value Scalar)

/-- The number that is not a list. -/
def Value.single? {ν : Type} : Value ν → Option ν
  | scalar x => some x
  | vector _ => none

/-- The item of a list at an index. -/
def Value.itemAt? : Value Scalar → Scalar → Option Scalar
  | vector items, .int i => i.toNat?.bind (items[·]?)
  | _, _ => none

/-- The value in another type that is not `void`. -/
def Scalar.convert? (type : ScalarType) (v : Scalar) : Option Scalar :=
  if type = .void then none else some (v.convert type)

namespace Expr

/-- The value of a constant expression by the rules of C. Calls of the conversions are what casts
become. -/
def constant? (values : ConstantValues) : Expr → Option Scalar
  | literal value _ => value.scalar?
  | id name _ => (values name).bind Value.single?
  | index (id name _) subscript _ =>
    (values name).bind fun array => (subscript.constant? values).bind array.itemAt?
  | unary op e _ => (e.constant? values).bind (Rules.implicit.unary op)
  | binary op l r _ =>
    (l.constant? values).bind fun v => (r.constant? values).bind (Rules.implicit.binary op v)
  | cast type e _ => (e.constant? values).bind (Scalar.convert? type)
  | call callee [e] _ =>
    (ScalarType.ofCName? callee).bind fun type => (e.constant? values).bind (Scalar.convert? type)
  | _ => none

/-- The value that a variable or an element of a type gets from an initializer. -/
def assignedAs? (values : ConstantValues) (type : ScalarType) (e : Expr) : Option Scalar :=
  (e.constant? values).map (Scalar.convert type)

/-- The length of an array that is declared with a size and has a number of initializers. -/
def arrayLength? (values : ConstantValues) (count : Nat) : Option Expr → Option Nat
  | none => some count
  | some size =>
    match size.constant? values with
    | some (.int n) => n.toNat?
    | _ => none

/-- The items of an array; those that are not initialized are zero. -/
def assignedItems? (values : ConstantValues) (type : ScalarType) (size : Option Expr)
    (items : List Expr) : Option (List Scalar) := do
  let length ← arrayLength? values items.length size
  let given ← items.mapM (assignedAs? values type)
  if given.length ≤ length then
    some (given ++ List.replicate (length - given.length) (.zero type))
  else none

end Expr

/-- The sizes of an array from the outermost on; a single number has none. -/
def Declarator.sizes? {δ : Type} : Declarator δ → Option (List (Option Expr))
  | element _ => some []
  | function .. => none
  | array item size _ => item.sizes?.map (size :: ·)

theorem Declarator.sizes?_eq_nil {δ : Type} {t : Declarator δ} (h : t.sizes? = some []) :
    ∃ type, t = .element type := by
  cases t with
  | element type => exact ⟨type, rfl⟩
  | function => cases h
  | array item =>
    obtain ⟨_, -, hsizes⟩ := Option.map_eq_some_iff.1 h
    cases hsizes

theorem Declarator.sizes?_eq_singleton {δ : Type} {t : Declarator δ} {size : Option Expr}
    (h : t.sizes? = some [size]) : ∃ type c, t = .array (.element type) size c := by
  cases t with
  | element type => cases h
  | function => cases h
  | array item size' c =>
    obtain ⟨sizes, hitem, hsizes⟩ := Option.map_eq_some_iff.1 h
    cases hsizes
    obtain ⟨type, rfl⟩ := Declarator.sizes?_eq_nil hitem
    exact ⟨type, c, rfl⟩

/-- The value of a number or an array of numbers with a constant initializer. -/
def Expr.assignedFor? (values : ConstantValues) (type : ScalarType) :
    Option (List (Option Expr)) → Option Expr → Option (Value Scalar)
  | some [], some e => (e.assignedAs? values type).map .scalar
  | some [size], some (.initList items _) => (assignedItems? values type size items).map .vector
  | _, _ => none

/-- The value that C gives a variable with a constant initializer. -/
def Decl.assigned? (values : ConstantValues) (d : Decl) : Option (Value Scalar) :=
  if d.scalar = .void then none
  else Expr.assignedFor? values d.scalar d.type.sizes? d.init

/-- The values of variables in order, each of which may use those before it. -/
def assignedAfter (known : KnownConstants Scalar) : List Decl → KnownConstants Scalar
  | [] => known
  | d :: rest =>
    match d.name, d.assigned? (fun x => known.lookup x) with
    | some name, some value => assignedAfter ((name, value) :: known) rest
    | _, _ => assignedAfter known rest

/-- The values that C gives the variables of a file with constant initializers. -/
def SourceUnit.assigned (u : SourceUnit) : KnownConstants Scalar :=
  assignedAfter [] u.globals

end MathKernel
