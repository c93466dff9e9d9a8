import ConstFun.Diagnostic.Basic
import ConstFun.FileTree

namespace ConstFun

namespace Diagnostic

/-- The column behind the last caret, on a line of the given length: the end column if it stands
on the same line, else the end of the line. -/
def caretEnd (d : Diagnostic) (line start length : Int) : Int :=
  match d.endLine, d.endColumn with
  | some endLine, some endColumn => if endLine = line then max start endColumn else length + 1
  | _, _ => start

/-- At least one caret, from the diagnostic's column. -/
def carets (d : Diagnostic) (line column length : Int) : String :=
  let start := max 1 column
  let width := max 1 (d.caretEnd line start length - start)
  String.ofList (List.replicate (start - 1).toNat ' ' ++ List.replicate width.toNat '^')

/-- The source line under its number, and the carets if there is a column. -/
def excerpt (d : Diagnostic) (line : Int) (text : String) : List String :=
  let number := toString line
  let width := max 5 number.length
  let source := padLeft width ' ' number ++ " | " ++ text
  match d.column with
  | none => [source]
  | some column => [source, padLeft width ' ' "" ++ " | " ++ d.carets line column text.length]

/-- The excerpt from a file's lines; none if the line is not among them. -/
def snippet (d : Diagnostic) (lines : List String) : List String :=
  match d.line with
  | none => []
  | some line =>
    if line < 1 then []
    else
      match lines[(line - 1).toNat]? with
      | some text => d.excerpt line text
      | none => []

/-- The snippet from the file that is named. A file that is not there has none. -/
def readSnippet (read : TextReader) (d : Diagnostic) : Except ReadError (List String) :=
  match d.filename.filter (· ≠ ""), d.line with
  | some file, some _ =>
    match read (.ofText file) with
    | .ok text => .ok (d.snippet (displayLines text))
    | .error (.file _) => .ok []
    | .error .undecodable => .error .undecodable
  | _, _ => .ok []

/-- Logs a diagnostic with its snippet. -/
def report (directory : String) (read : TextReader) (d : Diagnostic) :
    EStateM ReadError (Array Event) Unit := do
  modify (·.push (d.severity.event (d.format directory)))
  match d.readSnippet read with
  | .error e => throw e
  | .ok lines => modify (· ++ (lines.map d.severity.event).toArray)

end Diagnostic

/-- Logs diagnostics in their order. -/
def reportAll (directory : String) (read : TextReader) (ds : List Diagnostic) :
    EStateM ReadError (Array Event) Unit :=
  ds.forM (Diagnostic.report directory read)

end ConstFun
