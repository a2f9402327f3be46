import MathKernel.Normalize.Scope
import MathKernel.Kernel.Record

/-!
# The names a function refers to

A called name is a function's. An identifier that no parameter or local declaration hides is a
variable or constant of the file, not-a-number, or nothing that is known.
-/

namespace MathKernel

/-- Names at file level, by kind. -/
structure GlobalNames where
  constants : List String
  vars : List String

/-- Constants that every program may use. -/
def builtinConstants : List String := [notANumber]

/-- Note a reference to a name that nothing hides. -/
def Dependencies.addGlobal (globals : GlobalNames) (d : Dependencies) (name : String) :
    Dependencies :=
  if globals.vars.contains name then { d with vars := d.vars.insert name }
  else if globals.constants.contains name || builtinConstants.contains name then
    { d with constants := d.constants.insert name }
  else d

/-- Note what one expression node refers to. -/
def Dependencies.addNode (globals : GlobalNames) (hidden : List String) (d : Dependencies) :
    Expr → Dependencies
  | .call callee _ _ => { d with functions := d.functions.insert callee }
  | .id name _ => if hidden.contains name then d else d.addGlobal globals name
  | _ => d

/-- The expression nodes of a function's body, each with the names that are hidden there. -/
def FuncDef.scopedNodes (f : FuncDef) : List (List String × Expr) :=
  (Stmt.scopedExprsList declareName f.paramNames f.body.items).1.flatMap fun (hidden, e) =>
    e.subexprs.map (hidden, ·)

/-- The names that a function refers to. -/
def FuncDef.dependencies (globals : GlobalNames) (f : FuncDef) : Dependencies :=
  f.scopedNodes.foldl (fun d (hidden, e) => d.addNode globals hidden e) .none

end MathKernel
