import ConstFun.Command.Arguments
import ConstFun.Diagnostic.Snippet
import ConstFun.Program.Outline
import ConstFun.Wat.Generate

namespace ConstFun

/-- What a command takes from its surroundings: the working directory, the time of each message
that it logs, and the level that is set for logging. -/
structure Environment where
  directory : String
  clock : Nat → String
  logLevel : Option String := none

inductive CommandFailure where
  | reading (e : ReadError)
  | analysis (e : AnalysisFailure)
  | generation (e : GenerateFailure)
  | writing (e : WriteError)
  deriving DecidableEq, Repr

abbrev CommandM := EStateM CommandFailure (Array Event)

/-- How a command ends: at once, or with success after it wrote a file. -/
inductive Ending where
  | exit (code : Nat)
  | write (path : PathName) (text : String) (note : Option Event)
  deriving DecidableEq, Repr

structure Report where
  printed : List String := []
  ending : Ending
  deriving DecidableEq, Repr

namespace Invocation

/-- Switches for more detail win over the level that is set. -/
def logSettings (i : Invocation) (env : Environment) : LogSettings :=
  { rich := i.rich
    trace := i.trace
    level :=
      if 3 ≤ i.verbosity then .debug
      else if 1 ≤ i.verbosity then .info
      else LogLevel.ofSetting env.logLevel .warning }

def context (i : Invocation) (env : Environment) : Context := ⟨i.typing, i.logSettings env⟩

end Invocation

namespace Command

def log (e : Event) : CommandM Unit := modify (·.push e)

def reportDiagnostics (directory : String) (read : TextReader) (ds : List Diagnostic) :
    CommandM Unit :=
  EStateM.adaptExcept .reading (reportAll directory read ds)

/-- Analyses the entry file; a missing one is a diagnostic. -/
def analyzeFile (read : TextReader) (context : Context) (path : PathName) :
    CommandM Analysis := do
  match read path with
  | .error (.file ⟨.notFound, _⟩) =>
    return { diagnostics := [{ severity := .error, problem := .missingFile path.text }] }
  | .error e => throw (.reading e)
  | .ok text =>
    let (outcome, events) := context.analyze ⟨text, path.text, path.stem⟩
    modify (· ++ events.toArray)
    match outcome with
    | .error e => throw (.analysis e)
    | .ok a => return a

/-- Analyses the entry file and reports its diagnostics. -/
def analyzed (env : Environment) (read : TextReader) (i : Invocation) : CommandM Analysis := do
  let a ← analyzeFile read (i.context env) (.ofText i.entry)
  reportDiagnostics env.directory read a.diagnostics
  return a

/-- Success, for a program without errors. -/
def exitCode (a : Analysis) : Nat := if a.program.isNone || a.hasErrors then 1 else 0

/-- Reports why no text was generated; a misuse of the generator is passed on. -/
def reportFailure (directory : String) (read : TextReader) (filename : Option String) :
    GenerateFailure → CommandM Unit
  | .rejected problem span =>
    reportDiagnostics directory read [.atSpan .error (.lowering problem) filename span]
  | .fault f => log (.error f.format)
  | e => throw (.generation e)

/-- Generates the text of an analysis, or reports why there is none. -/
def generated (env : Environment) (read : TextReader) (i : Invocation) (a : Analysis) :
    CommandM (Option String) := do
  let (outcome, events) := (i.context env).generate a
  modify (· ++ events.toArray)
  match outcome with
  | .ok text => return some text
  | .error e =>
    reportFailure env.directory read (a.program.bind Program.filename) e
    return none

/-- Where the text of the entry goes if nothing else is said. -/
def defaultOutput (i : Invocation) : PathName := (PathName.ofText i.entry).withSuffix ".wat"

/-- The output that is asked for; an empty one is none. -/
def outputPath? (i : Invocation) : Option PathName :=
  (i.output.filter (· ≠ "")).map PathName.ofText

def done (printed : List String) (code : Nat) : CommandM Report := return ⟨printed, .exit code⟩

/-- What becomes of generated text. -/
def deliver (i : Invocation) (text : String) : Report :=
  match i.command, outputPath? i with
  | .build, path? =>
    let path := path?.getD (defaultOutput i)
    ⟨[], .write path text (some (.info s!"Wrote {path.text}"))⟩
  | _, some path => ⟨[], .write path text none⟩
  | _, none => ⟨[text], .exit 0⟩

def compile (env : Environment) (read : TextReader) (i : Invocation) : CommandM Report := do
  let a ← analyzed env read i
  if exitCode a ≠ 0 then done [] (exitCode a)
  else
    match ← generated env read i a with
    | none => done [] 1
    | some text => return deliver i text

def tokenLine (path : String) (t : Token) : String :=
  s!"{path}:{t.line}:{t.column}:\t{padRight 12 t.kind.label} {quoted t.text}\n"

def listTokens (read : TextReader) (i : Invocation) : CommandM Report := do
  let path := PathName.ofText i.entry
  let name := path.text
  match read path with
  | .error .undecodable => throw (.reading .undecodable)
  | .error (.file e) =>
    log (.error s!"error: [FFC-0010] cannot read {name}: {e.message}")
    done [] 1
  | .ok text =>
    match tokenize text with
    | .error e =>
      log (.error s!"{name}:{e.position.line}:{e.position.column}: error: {e.message}")
      done [] 1
    | .ok found =>
      let shown := found.filter fun t => i.includeEof || t.kind ≠ .eof
      done (shown.map (tokenLine name)) 0

def liftFault {α : Type} : Except Fault α → CommandM α
  | .ok a => return a
  | .error f => throw (.analysis (.fault f))

def showOutline (a : Analysis) : CommandM Report := do
  match a.program with
  | none => done [] 1
  | some p =>
    let showType := match a.session.filter (·.solved) with
      | some s => fun h => (s.graph.classKind h).map formatKind
      | none => showHandle
    let lines ← liftFault (p.outline.lines showType 0)
    done (lines.map (· ++ "\n")) 0

def functionLine (a : Analysis) (f : FunctionDecl) : CommandM String := do
  let kind ← liftFault (a.returnKind f)
  return s!"  {f.name}: {formatKind kind}\n"

def literalLine (s : Session) (l : TypedLiteral) : CommandM String := do
  let place := (l.literal.span.map Span.startText).getD "?"
  let kind ← liftFault (s.graph.classKind l.handle)
  return s!"  {padRight 8 place} {padRight 24 l.literal.text} {formatKind kind}\n"

/-- The lines of a section; one that would be empty says so. -/
def sectionLines (title : String) (lines : List String) : List String :=
  (title ++ ":\n") :: (if lines.isEmpty then ["  <none>\n"] else lines)

def listTypes (a : Analysis) : CommandM Report := do
  match a.program, a.session.filter (·.solved) with
  | some p, some s =>
    let functions ← p.functions.mapM (functionLine a)
    let literals ← s.literals.mapM (literalLine s)
    done (sectionLines "functions" functions ++ sectionLines "literals" literals) (exitCode a)
  | _, _ => done [] 1

def constraintLine (g : TypeGraph) (index : Nat) (c : Constraint) : CommandM String := do
  let text ← liftFault (c.render g)
  let number := padLeft 5 ' ' (toString index)
  return s!"{number}  {text}\n"

def listConstraints (a : Analysis) : CommandM Report := do
  match a.program, a.session with
  | some _, some s =>
    let lines ← s.store.log.toList.zipIdx.mapM fun (c, index) => constraintLine s.graph index c
    done lines (exitCode a)
  | _, _ => done [] 1

end Command

/-- Runs a command. -/
def Invocation.run (env : Environment) (read : TextReader) (i : Invocation) : CommandM Report := do
  match i.command with
  | .build | .generate => Command.compile env read i
  | .check => Command.done [] (Command.exitCode (← Command.analyzed env read i))
  | .tokens => Command.listTokens read i
  | .outline => Command.showOutline (← Command.analyzed env read i)
  | .types => Command.listTypes (← Command.analyzed env read i)
  | .constraints => Command.listConstraints (← Command.analyzed env read i)

/-- What is left of a run: the printed and the logged text, and the exit code or the failure that
stopped it. -/
structure Aftermath where
  stdout : String
  stderr : String
  result : Except CommandFailure Nat

/-- Runs a command to its end, with a way to read and a way to write the text of a file. -/
def Invocation.perform {m : Type → Type} [Monad m] (env : Environment) (read : TextReader)
    (write : PathName → String → m (Except WriteError Unit)) (i : Invocation) : m Aftermath :=
  let render (events : Array Event) := renderLog env.clock (some (i.logSettings env)) events.toList
  match i.run env read #[] with
  | .error e events => return ⟨"", render events, .error e⟩
  | .ok report events =>
    let stdout := String.join report.printed
    match report.ending with
    | .exit code => return ⟨stdout, render events, .ok code⟩
    | .write path text note => do
      match ← write path text with
      | .ok _ => return ⟨stdout, render (events ++ note.toArray), .ok 0⟩
      | .error e => return ⟨stdout, render events, .error (.writing e)⟩

/-- Runs a command on a tree of files. -/
def FileTree.perform (t : FileTree) (env : Environment) (i : Invocation) : Aftermath × FileTree :=
  let write (path : PathName) (text : String) : StateM FileTree (Except WriteError Unit) :=
    fun t => t.writeText path text
  i.perform env t.readText write t

end ConstFun
