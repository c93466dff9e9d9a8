import ConstFun.Span

namespace ConstFun

/-- The index of a type node in its graph. -/
abbrev Handle := Int

/-- A numeric literal as written; `type` is the handle inference gave it. -/
structure Literal where
  text : String
  isDecimal : Bool := false
  type : Option Handle := none
  span : Option Span := none
  deriving DecidableEq, Repr

structure TypeName where
  name : String
  span : Option Span := none
  deriving DecidableEq, Repr

/-- A function's body. A source program has only literals; other expressions are kept by their
place alone. -/
inductive Body where
  | literal (l : Literal)
  | other (span : Option Span)
  deriving DecidableEq, Repr

namespace Body

def span : Body → Option Span
  | .literal l => l.span
  | .other s => s

def type : Body → Option Handle
  | .literal l => l.type
  | .other _ => none

/-- Bodies are alike if they have the same form, whatever their text, type and place. -/
def alike : Body → Body → Bool
  | .literal _, .literal _ => true
  | .other _, .other _ => true
  | _, _ => false

end Body

/-- A function without a return type takes the type of its body. -/
structure FunctionDecl where
  name : String
  returnType : Option TypeName := none
  body : Body
  exportAs : Option String := none
  span : Option Span := none
  deriving DecidableEq, Repr

/-- Exports the function `name` as `publicName`. -/
structure ExportDecl where
  name : String
  publicName : String
  span : Option Span := none
  deriving DecidableEq, Repr

inductive Decl where
  | function (f : FunctionDecl)
  | exportOf (e : ExportDecl)
  deriving DecidableEq, Repr

structure Program where
  name : String
  decls : List Decl
  filename : Option String := none
  span : Option Span := none
  deriving DecidableEq, Repr

namespace Program

def functions (p : Program) : List FunctionDecl :=
  p.decls.filterMap fun
    | .function f => some f
    | .exportOf _ => none

def exports (p : Program) : List ExportDecl :=
  p.decls.filterMap fun
    | .function _ => none
    | .exportOf e => some e

end Program

end ConstFun
