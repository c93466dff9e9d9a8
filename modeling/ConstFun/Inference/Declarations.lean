import ConstFun.Inference.Session
import ConstFun.Program.Parse

namespace ConstFun

/-- A type name equates a handle with the kind it names. -/
def Session.annotate (s : Session) (h : Handle) (t : TypeName) : Session :=
  match Kind.ofSpelling? t.name with
  | none => s
  | some k =>
    let (c, solver) := s.toSolver.concrete k
    { s with toSolver := solver.constrainEqual h c t.span }

/-- Types a literal that was not seen before. -/
def Literal.typed (l : Literal) : EStateM NumberError Session Literal := do
  Session.inferred (← get).literals.length l

/-- Types a function's body, as its return type says if it has one. -/
def FunctionDecl.typed (f : FunctionDecl) : EStateM NumberError Session FunctionDecl := do
  match f.body with
  | .other _ => return f
  | .literal l =>
    let l ← l.typed
    match l.type, f.returnType with
    | some h, some t => modify (·.annotate h t)
    | _, _ => pure ()
    return { f with body := .literal l }

def Decl.typed : Decl → EStateM NumberError Session Decl
  | .function f => .function <$> f.typed
  | .exportOf e => return .exportOf e

inductive ProgramFailure where
  | grammar (f : ParseFailure)
  | number (e : NumberError)
  deriving DecidableEq, Repr

/-- Reads and types a program up to its end token. The declarations before a failure are typed
first, so a text among them that is no number is what fails. -/
def Program.read (name : String) (filename : Option String) (tokens : TokenStream) :
    EStateM ProgramFailure Session (Program × TokenStream) := do
  let (decls, outcome) := Parser.items tokens
  let decls ← EStateM.adaptExcept .number (decls.mapM Decl.typed)
  match outcome, tokens.rest.head? with
  | .error e, _ => throw (.grammar e)
  | .ok _, none => throw (.grammar .exhausted)
  | .ok rest, some start =>
    match Parser.spanFrom start rest with
    | .error e => throw (.grammar e)
    | .ok (span, _) => return (⟨name, decls, filename, some span⟩, rest)

end ConstFun
