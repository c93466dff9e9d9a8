import ConstFun.Diagnostic.Problem
import ConstFun.PathName

namespace ConstFun

inductive Severity where
  | error
  | warning
  | other (label : String)
  deriving DecidableEq, Repr

namespace Severity

def label : Severity → String
  | .error => "error"
  | .warning => "warning"
  | .other label => label

def ofLabel (label : String) : Severity :=
  if label = "error" then .error else if label = "warning" then .warning else .other label

/-- Errors are logged as errors, all else as warnings. -/
def event (s : Severity) (text : String) : Event :=
  match s with
  | .error => .error text
  | _ => .warning text

end Severity

structure Diagnostic where
  severity : Severity
  problem : Problem
  filename : Option String := none
  line : Option Int := none
  column : Option Int := none
  endLine : Option Int := none
  endColumn : Option Int := none
  deriving DecidableEq, Repr

namespace Diagnostic

def atSpan (severity : Severity) (problem : Problem) (filename : Option String)
    (span : Option Span) : Diagnostic :=
  { severity, problem, filename
    line := span.map Span.startLine
    column := span.map Span.startColumn
    endLine := span.map Span.endLine
    endColumn := span.map Span.endColumn }

/-- A token covers its own text. -/
def atToken (severity : Severity) (problem : Problem) (filename : Option String)
    (token : Option Token) : Diagnostic :=
  atSpan severity problem filename
    (token.map fun t => ⟨t.line, t.column, t.line, t.column + t.text.length⟩)

/-- `file:line:column`, the file with its absolute path, without the missing parts; a column needs
a line. -/
def place (directory : String) (d : Diagnostic) : String :=
  let file := (d.filename.map (PathName.absolute directory)).getD ""
  match d.line, d.column with
  | none, _ => file
  | some line, none => s!"{file}:{line}"
  | some line, some column => s!"{file}:{line}:{column}"

/-- The line that reports a diagnostic. -/
def format (directory : String) (d : Diagnostic) : String :=
  let place := d.place directory
  let mark := if place = "" then "" else ": "
  s!"{place}{mark}{d.severity.label}: {d.problem.message}"

end Diagnostic

end ConstFun
