import ConstFun.Diagnostic.Basic
import ConstFun.Table

namespace ConstFun

/-- Functions by name, exported functions by alias, and what was wrong. -/
structure Names where
  functions : Table String FunctionDecl := {}
  exports : Table String String := {}
  diagnostics : List Diagnostic := []
  deriving DecidableEq, Repr

namespace Names

def report (n : Names) (problem : NameProblem) (filename : Option String) (span : Option Span) :
    Names :=
  { n with diagnostics := n.diagnostics ++ [.atSpan .error (.naming problem) filename span] }

def addFunction (filename : Option String) (n : Names) (f : FunctionDecl) : Names :=
  if n.functions.contains f.name then n.report (.duplicateFunction f.name) filename f.span
  else { n with functions := n.functions.insert f.name f }

def addExport (filename : Option String) (n : Names) (e : ExportDecl) : Names :=
  if !n.functions.contains e.name then n.report (.unknownExport e.name) filename e.span
  else if n.exports.contains e.publicName then
    n.report (.duplicateAlias e.publicName) filename e.span
  else { n with exports := n.exports.insert e.publicName e.name }

/-- The exports that functions ask for where they are declared. -/
def ownExports (n : Names) : List ExportDecl :=
  n.functions.entries.filterMap fun (_, f) =>
    f.exportAs.map fun publicName => ⟨f.name, publicName, f.span⟩

/-- The functions come first, then their own exports, then the separate ones. -/
def ofProgram (p : Program) : Names :=
  let named := p.functions.foldl (addFunction p.filename) {}
  (named.ownExports ++ p.exports).foldl (addExport p.filename) named

end Names

end ConstFun
