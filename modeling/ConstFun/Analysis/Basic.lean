import ConstFun.Analysis.Names
import ConstFun.Inference.Declarations
import ConstFun.Text.Letter

namespace ConstFun

structure Source where
  text : String
  filename : String := "<input>"
  moduleName : String := "main"
  deriving DecidableEq, Repr

/-- A text that could not be read as a program has none, and an analysis of no text at all has no
session either. -/
structure Analysis where
  program : Option Program := none
  session : Option Session := none
  functions : Table String FunctionDecl := {}
  exports : Table String String := {}
  diagnostics : List Diagnostic := []
  deriving DecidableEq, Repr

/-- What ends an analysis without a result. -/
inductive AnalysisFailure where
  | number (e : NumberError)
  | exhausted
  | fault (f : Fault)
  deriving DecidableEq, Repr

abbrev AnalysisM := EStateM AnalysisFailure Session

namespace Analysis

def hasErrors (a : Analysis) : Bool := a.diagnostics.any (·.severity = .error)

def hasWarnings (a : Analysis) : Bool := a.diagnostics.any (·.severity = .warning)

def report (a : Analysis) (d : Diagnostic) : Analysis :=
  { a with diagnostics := a.diagnostics ++ [d] }

/-- The declared return kind, or else the kind of the body's class. -/
def returnKind (a : Analysis) (f : FunctionDecl) : Except Fault (Option Kind) :=
  match f.returnType, a.session, f.body.type with
  | some t, _, _ => return Kind.ofSpelling? t.name
  | none, some s, some h => s.graph.classKind h
  | none, _, _ => return none

def log (e : Event) : AnalysisM Unit := modify (·.record e)

/-- Runs a step that may fail, and goes on with its outcome. -/
def attempt {ε ε' σ α : Type} (m : EStateM ε σ α) : EStateM ε' σ (Except ε α) := fun s =>
  match m s with
  | .ok a s => .ok (.ok a) s
  | .error e s => .ok (.error e) s

/-- A lexical problem has a start and no end. -/
def lexicalDiagnostic (filename : String) (e : LexError) : Diagnostic :=
  { severity := .error
    problem := .lexical e
    filename := some filename
    line := some e.position.line
    column := some e.position.column }

/-- The program a source reads as, or the problem it has as a text. -/
def readProgram (source : Source) : AnalysisM (Except Diagnostic Program) := do
  let file := source.filename
  log (.debug s!"Lexing {file}")
  match tokenize source.text with
  | .error e => return .error (lexicalDiagnostic file e)
  | .ok tokens =>
    log (.debug s!"Lexed {tokens.length} token(s) from {file}")
    match ← attempt (Program.read source.moduleName (some file) { rest := tokens }) with
    | .error (.number e) => throw (.number e)
    | .error (.grammar .exhausted) => throw .exhausted
    | .error (.grammar (.rejected e)) =>
      return .error (.atToken .error (.grammar e) (some file) (some e.token))
    | .ok (p, _) =>
      log (.debug s!"Parsed {p.decls.length} item(s) from {file}")
      return .ok p

def ofProgram (p : Program) : Analysis :=
  let names := Names.ofProgram p
  { program := some p
    functions := names.functions
    exports := names.exports
    diagnostics := names.diagnostics }

/-- Reads a source and resolves its names. -/
def resolve (source : Source) : AnalysisM Analysis := do
  log (.info s!"Starting analysis for '{source.filename}'")
  log (.stage "Parsing" (some source.filename))
  match ← readProgram source with
  | .error d => return { diagnostics := [d] }
  | .ok p =>
    log (.stage "Resolving function names")
    return ofProgram p

/-- Warns about a literal whose kind is still open. -/
def reviewLiteral (filename : Option String) (a : Analysis) (l : TypedLiteral) :
    AnalysisM Analysis := do
  match (← get).graph.classKind l.handle with
  | .error f => throw (.fault f)
  | .ok none =>
    return a.report (.atSpan .warning (.ambiguous l.literal.text) filename l.literal.span)
  | .ok (some k) =>
    log (.debug s!"literal '{l.literal.text}' resolved to {k.spelling}")
    return a

/-- Solves the constraints of a program that was read, and reviews its literals. -/
def infer (filename : String) (a : Analysis) : AnalysisM Analysis := do
  match a.program with
  | none => return a
  | some p =>
    let (functions, exports) := (a.functions.entries.length, a.exports.entries.length)
    log (.debug s!"Found {functions} function(s), {exports} export(s)")
    log (.stage "Solving type constraints")
    match ← attempt Session.solve with
    | .error (.mismatch e) =>
      return a.report (.atSpan .error (.typing e.problem) (some filename) e.origin)
    | .error (.fault f) => throw (.fault (f.locate (some filename) none))
    | .ok processed =>
      log (.debug s!"Solved {processed} constraint(s), {(← get).store.log.size} in the log")
      let a ← (← get).literals.foldlM (reviewLiteral p.filename) a
      let errors := (a.diagnostics.filter (·.severity = .error)).length
      log (.info
        s!"Analysis complete: {a.diagnostics.length} total diagnostic(s), {errors} error(s)")
      return a

/-- Runs a step of an analysis, and gives what it logged, also if it fails. -/
def conclude (step : AnalysisM Analysis) (s : Session) :
    Except AnalysisFailure Analysis × List Event :=
  match step s with
  | .ok a s => (.ok { a with session := some s }, s.journal.toList)
  | .error e s => (.error e, s.journal.toList)

end Analysis

/-- What a compilation is asked for: how literals are typed, and what is logged. -/
structure Context where
  typing : TypingOptions := {}
  log : LogSettings := {}
  deriving DecidableEq, Repr

/-- Analyses a source, and gives what was logged meanwhile: every event. -/
def analyze (options : TypingOptions) (source : Source) :
    Except AnalysisFailure Analysis × List Event :=
  Analysis.conclude (Analysis.resolve source >>= Analysis.infer source.filename)
    (Session.new options)

/-- Analyses a source in a context, and gives what was logged meanwhile as far as it is asked
for. -/
def Context.analyze (c : Context) (source : Source) :
    Except AnalysisFailure Analysis × List Event :=
  Analysis.conclude (Analysis.resolve source >>= Analysis.infer source.filename)
    { Session.new c.typing with settings := some c.log }

end ConstFun
