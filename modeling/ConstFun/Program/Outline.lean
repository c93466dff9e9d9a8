import ConstFun.Fault
import ConstFun.Text.Quoted

namespace ConstFun

inductive Scalar where
  | absent
  | boolean (value : Bool)
  | integer (value : Int)
  | text (value : String)
  deriving DecidableEq, Repr

def Scalar.shown : Scalar → String
  | .absent => "None"
  | .boolean true => "True"
  | .boolean false => "False"
  | .integer value => toString value
  | .text value => quoted value

/-- A node has a label and named fields, and perhaps a type and a place. -/
inductive Outline where
  | scalar (value : Scalar)
  | list (items : List Outline)
  | node (label : String) (fields : List (String × Outline)) (type : Option Handle)
      (span : Option Span)

namespace Outline

def absent : Outline := .scalar .absent

def text (value : String) : Outline := .scalar (.text value)

def ofOption {α : Type} (f : α → Outline) (value : Option α) : Outline := (value.map f).getD absent

/-- The labels of nodes, each with the names of its fields in order. -/
def labels : List (String × List String) :=
  [("Node", []), ("Expr", []), ("TopLevelDecl", []), ("TypeRef", ["name"]),
   ("NumberLiteral", ["value", "is_decimal"]),
   ("FuncDecl", ["name", "return_type", "body", "export_as"]),
   ("ExportDecl", ["name", "alias"]), ("Module", ["name", "decls", "filename"])]

/-- The scalar fields, which stand in the node's own line. -/
def scalarFields (fields : List (String × Outline)) : List (String × Scalar) :=
  fields.filterMap fun
    | (name, .scalar value) => some (name, value)
    | _ => none

/-- The label with the scalar fields that are present; parentheses stand as soon as the node has a
scalar field. -/
def heading (label : String) (fields : List (String × Outline)) : String :=
  let scalars := scalarFields fields
  let present := scalars.filter fun field => field.2 ≠ .absent
  let shown := present.map fun field => field.1 ++ "=" ++ field.2.shown
  if scalars.isEmpty then label else label ++ "(" ++ ", ".intercalate shown ++ ")"

/-- Two spaces for each level, none below zero. -/
def indentation (indent : Int) : String := String.ofList (List.replicate (2 * indent.toNat) ' ')

def spanText (span : Option Span) : String := (span.map fun s => " " ++ s.render).getD ""

def typeText (showType : Handle → Except Fault String) : Option Handle → Except Fault String
  | some h => return " : " ++ (← showType h)
  | none => return ""

mutual

/-- The lines of an outline. A field that is a node or a non-empty list stands below the node, two
levels deeper, under its name. -/
def lines (showType : Handle → Except Fault String) (indent : Int) :
    Outline → Except Fault (List String)
  | .scalar value => return [indentation indent ++ value.shown]
  | .list items => itemLines showType indent items
  | .node label fields type span => do
    let shownType ← typeText showType type
    let below ← fieldsLines showType indent fields
    return (indentation indent ++ heading label fields ++ shownType ++ spanText span) :: below

def itemLines (showType : Handle → Except Fault String) (indent : Int) :
    List Outline → Except Fault (List String)
  | [] => return []
  | item :: rest => return (← lines showType indent item) ++ (← itemLines showType indent rest)

def fieldsLines (showType : Handle → Except Fault String) (indent : Int) :
    List (String × Outline) → Except Fault (List String)
  | [] => return []
  | field :: rest =>
    return (← fieldLines showType indent field) ++ (← fieldsLines showType indent rest)

def fieldLines (showType : Handle → Except Fault String) (indent : Int) :
    String × Outline → Except Fault (List String)
  | (_, .scalar _) => return []
  | (_, .list []) => return []
  | (name, value) =>
    return (indentation indent ++ "  " ++ name ++ ":") :: (← lines showType (indent + 2) value)

end

end Outline

def Literal.outline (l : Literal) : Outline :=
  .node "NumberLiteral" [("value", .text l.text), ("is_decimal", .scalar (.boolean l.isDecimal))]
    l.type l.span

def TypeName.outline (t : TypeName) : Outline :=
  .node "TypeRef" [("name", .text t.name)] none t.span

def Body.outline : Body → Outline
  | .literal l => l.outline
  | .other span => .node "Expr" [] none span

def FunctionDecl.outline (f : FunctionDecl) : Outline :=
  .node "FuncDecl"
    [("name", .text f.name), ("return_type", .ofOption TypeName.outline f.returnType),
     ("body", f.body.outline), ("export_as", .ofOption .text f.exportAs)]
    none f.span

def ExportDecl.outline (e : ExportDecl) : Outline :=
  .node "ExportDecl" [("name", .text e.name), ("alias", .text e.publicName)] none e.span

def Decl.outline : Decl → Outline
  | .function f => f.outline
  | .exportOf e => e.outline

def Program.outline (p : Program) : Outline :=
  .node "Module"
    [("name", .text p.name), ("decls", .list (p.decls.map Decl.outline)),
     ("filename", .ofOption .text p.filename)]
    none p.span

/-- Without a graph a type is shown by its handle. -/
def showHandle (h : Handle) : Except Fault String := return s!"?{h}"

end ConstFun
