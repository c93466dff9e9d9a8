import ConstFun.Analysis.Basic
import ConstFun.Wat.Emitter

namespace ConstFun

inductive GenerateFailure where
  | noProgram
  | semanticErrors
  | fault (f : Fault)
  | rejected (problem : LoweringProblem) (span : Option Span)
  | number (e : NumberError)
  | emission (e : EmitError)
  deriving DecidableEq, Repr

structure Generator where
  emitter : Emitter := {}
  journal : Array Event := #[]
  settings : Option LogSettings := none
  deriving DecidableEq, Repr

abbrev GeneratorM := EStateM GenerateFailure Generator

namespace Generator

def log (e : Event) : GeneratorM Unit :=
  modify fun g => { g with journal := e.noteIn g.settings g.journal }

def emitting (m : EStateM EmitError Emitter Unit) : GeneratorM Unit := fun g =>
  match m g.emitter with
  | .ok _ emitter => .ok () { g with emitter }
  | .error e emitter => .error (.emission e) { g with emitter }

def liftFault {α : Type} : Except Fault α → GeneratorM α
  | .ok a => return a
  | .error f => throw (.fault f)

/-- A broken invariant, located in the program's file. -/
def breach {α : Type} (b : Breach) (filename : Option String) (span : Option Span) :
    GeneratorM α :=
  throw (.fault ⟨b, some ⟨filename, span⟩⟩)

/-- The kind that inference found for a literal. -/
def literalKind (s : Session) (filename : Option String) (l : Literal) : GeneratorM Kind := do
  match l.type with
  | none => breach .untypedLiteral filename l.span
  | some h =>
    match ← liftFault (s.graph.classKind h) with
    | none => throw (.rejected (.unresolved l.text) l.span)
    | some k => return k

def lowerKind (k : Kind) (span : Option Span) : GeneratorM ValueType :=
  match k.valueType? with
  | some t => return t
  | none => throw (.rejected (.unsupported k) span)

/-- A literal's value, which must lie in the exact range of its kind. -/
def checkedValue (l : Literal) (k : Kind) : GeneratorM LiteralValue :=
  match literalValue l.text l.isDecimal with
  | .error e => throw (.number e)
  | .ok value =>
    if k.admits true value then return value else throw (.rejected (.unfit l.text k) l.span)

def function (a : Analysis) (s : Session) (filename : Option String) (f : FunctionDecl) :
    GeneratorM Unit := do
  match f.body with
  | .other span => breach (.unsupportedBody f.name) filename span
  | .literal l =>
    let kind ← literalKind s filename l
    let declared ← liftFault (a.returnKind f)
    if declared ≠ some kind then breach (.kindMismatch f.name (some kind) declared) filename f.span
    else
      let type ← lowerKind kind l.span
      let value ← checkedValue l kind
      log (.debug s!"Emitting function '{f.name}' -> {type.name}")
      emitting (Emitter.function f.name type.name value (some l.text))

def exported (publicName name : String) : GeneratorM Unit := do
  log (.debug s!"Exporting '{name}' as '{publicName}'")
  emitting (modify fun e => e.exportFunction publicName name)

/-- The text of a solved program. -/
def program (a : Analysis) (s : Session) (p : Program) : GeneratorM String := do
  emitting (modify fun e => e.openModule p.name)
  p.functions.forM (function a s p.filename)
  a.exports.entries.forM fun (publicName, name) => exported publicName name
  emitting Emitter.close
  return (← get).emitter.text

end Generator

/-- Generates the text of an analysis without errors. -/
def Analysis.generate (a : Analysis) : GeneratorM String := do
  Generator.log (.stage "Generating WebAssembly text")
  match a.program with
  | none => throw .noProgram
  | some p =>
    if a.hasErrors then throw .semanticErrors
    else
      match a.session.filter (·.solved) with
      | none => Generator.breach .generatedUnsolved p.filename none
      | some s => Generator.program a s p

/-- Generates a text, and gives what was logged meanwhile, also if there is none. -/
def Generator.conclude (step : GeneratorM String) (g : Generator) :
    Except GenerateFailure String × List Event :=
  match step g with
  | .ok text g => (.ok text, g.journal.toList)
  | .error e g => (.error e, g.journal.toList)

/-- Generates in a context, and gives what was logged meanwhile as far as it is asked for. -/
def Context.generate (c : Context) (a : Analysis) : Except GenerateFailure String × List Event :=
  Generator.conclude a.generate { settings := some c.log }

def GenerateFailure.message : GenerateFailure → String
  | .noProgram => "Cannot generate code without a module"
  | .semanticErrors => "Cannot generate code with semantic errors"
  | .fault f => f.message
  | .rejected problem _ => problem.message
  | .number e => e.message
  | .emission e => e.message

end ConstFun
