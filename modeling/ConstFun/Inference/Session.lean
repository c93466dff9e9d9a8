import ConstFun.Inference.Solver
import ConstFun.Kind.Range

namespace ConstFun

/-- The choices that typing depends on: exact unsigned bounds, and whether literals are narrowed. -/
structure TypingOptions where
  exactUnsigned : Bool := false
  narrowing : Bool := true
  deriving DecidableEq, Repr

/-- A literal that was given a type. Occurrences are told apart by `key`, not by their text. -/
structure TypedLiteral where
  key : Nat
  literal : Literal
  handle : Handle
  deriving DecidableEq, Repr

structure Session extends Solver where
  options : TypingOptions := {}
  literals : List TypedLiteral := []
  solved : Bool := false
  deriving DecidableEq, Repr

namespace Solver

def newVariable (s : Solver) : Handle × Solver :=
  let (h, graph) := s.graph.newVariable
  (h, { s with graph })

def concrete (s : Solver) (k : Kind) : Handle × Solver :=
  let (h, graph) := s.graph.concrete k
  (h, { s with graph })

/-- The canonical node of a handle's class. -/
def reify (s : Solver) (h : Handle) : Handle × Solver :=
  let (root, graph) := s.graph.find h
  (root, { s with graph })

/-- Emits `literal <: k` under a fresh color. -/
def offer (s : Solver) (literal : Handle) (origin : Option Span) (k : Kind) : Solver :=
  let (h, s) := s.concrete k
  s.constrainSubtype literal h origin

/-- Emits one subtype constraint for each kind that can hold the value. -/
def classify (s : Solver) (literal : Handle) (value : LiteralValue) (exact : Bool)
    (origin : Option Span) : List Kind × Solver :=
  let kinds := admissibleKinds exact value
  (kinds, kinds.foldl (fun s k => s.offer literal origin k) s)

/-- Notes a literal that no kind can hold. -/
def noteIfUnrepresentable (s : Solver) (literal : Handle) (origin : Option Span)
    (kinds : List Kind) : Solver :=
  if kinds.isEmpty then s.noteUnrepresentable literal origin else s

end Solver

namespace Session

def new (options : TypingOptions) : Session := { options }

def record (s : Session) (e : Event) : Session := { s with toSolver := s.toSolver.record e }

/-- Runs a step of the solver, and keeps what it did also if it fails. -/
def onSolver {ε α : Type} (m : EStateM ε Solver α) : EStateM ε Session α := fun s =>
  match m s.toSolver with
  | .ok a solver => .ok a { s with toSolver := solver }
  | .error e solver => .error e { s with toSolver := solver }

/-- How a literal's kinds are logged. -/
def classified (l : Literal) (h : Handle) (kinds : List Kind) : Event :=
  let names := if kinds.isEmpty then "<none>" else ", ".intercalate (kinds.map Kind.spelling)
  .trace s!"literal {l.text} -> ?{h}: {names}"

/-- The type of an occurrence of a literal: a fresh variable with its constraints the first time,
the same handle afterwards. The variable stays even if the text is no number. -/
def infer (key : Nat) (l : Literal) : EStateM NumberError Session Handle := fun s =>
  match s.literals.find? (·.key = key) with
  | some known => .ok known.handle s
  | none =>
    let (h, solver) := s.toSolver.newVariable
    match literalValue l.text l.isDecimal with
    | .error e => .error e { s with toSolver := solver }
    | .ok value =>
      let (kinds, solver) := solver.classify h value s.options.exactUnsigned l.span
      let solver := (solver.noteIfUnrepresentable h l.span kinds).record (classified l h kinds)
      .ok h { s with toSolver := solver, literals := s.literals ++ [⟨key, l, h⟩] }

/-- A literal with its type. -/
def inferred (key : Nat) (l : Literal) : EStateM NumberError Session Literal := do
  let h ← infer key l
  return { l with type := some h }

/-- The kind of a handle's class, found along its canonical node. -/
def reifyKind (h : Handle) : EStateM Fault Session (Option Kind) := fun s =>
  let (root, solver) := s.toSolver.reify h
  match solver.graph.kindOf root with
  | .ok k => .ok k { s with toSolver := solver }
  | .error f => .error f { s with toSolver := solver }

def constrainEqual (s : Session) (left right : Handle) (origin : Option Span) : Session :=
  { s with toSolver := s.toSolver.constrainEqual left right origin }

def constrainSubtype (s : Session) (left right : Handle) (origin : Option Span)
    (color : Option Int := none) : Session :=
  { s with toSolver := s.toSolver.constrainSubtype left right origin color }

/-- Solves the constraints; a session is solved once, whatever the outcome. -/
def solve : EStateM SolveFailure Session Nat := do
  if (← get).solved then throw (.fault ⟨.solvedTwice, none⟩)
  else
    modify ({ · with solved := true })
    onSolver (SolverM.solve (← get).options.narrowing)

end Session

end ConstFun
