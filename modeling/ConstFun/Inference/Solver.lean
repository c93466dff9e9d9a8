import ConstFun.Diagnostic.Code
import ConstFun.Inference.Constraint
import ConstFun.Log
import ConstFun.Table

namespace ConstFun

inductive TypeProblem where
  | notSubtype (left right : Kind)
  | notEqual (left right : Kind)
  | unfit (kind : Kind)
  | noCommonKind
  deriving DecidableEq, Repr

structure TypeError where
  problem : TypeProblem
  origin : Option Span
  deriving DecidableEq, Repr

namespace TypeProblem

def code : TypeProblem → Code
  | .notSubtype _ _ => ⟨.typ, 10⟩
  | .notEqual _ _ => ⟨.typ, 10⟩
  | .unfit _ => ⟨.typ, 20⟩
  | .noCommonKind => ⟨.typ, 30⟩

def message (p : TypeProblem) : String :=
  p.code.tag <|
    match p with
    | .notSubtype left right =>
      s!"type mismatch: {left.spelling} is not a subtype of {right.spelling}"
    | .notEqual left right => s!"type mismatch: {left.spelling} is not {right.spelling}"
    | .unfit kind => s!"numeric literal does not fit in {kind.spelling}"
    | .noCommonKind => "numeric literals unified here have no numeric type in common"

def left? : TypeProblem → Option Kind
  | .notSubtype left _ => some left
  | .notEqual left _ => some left
  | _ => none

def right? : TypeProblem → Option Kind
  | .notSubtype _ right => some right
  | .notEqual _ right => some right
  | .unfit kind => some kind
  | .noCommonKind => none

end TypeProblem

inductive SolveFailure where
  | fault (f : Fault)
  | mismatch (e : TypeError)
  deriving DecidableEq, Repr

/-- A subtype constraint parked at a root; `source` is the variable it was stated of. -/
structure PendingBound where
  color : Int
  right : Handle
  source : Handle
  origin : Option Span
  deriving DecidableEq, Repr

/-- `pending` holds the parked bounds of each root, `unrepresentable` the literals that no kind can
hold, `journal` what was logged as far as the `settings` admit it. -/
structure Solver where
  graph : TypeGraph := {}
  store : ConstraintStore := {}
  pending : Table Handle (List PendingBound) := {}
  unrepresentable : Table Handle (Option Span) := {}
  journal : Array Event := #[]
  settings : Option LogSettings := none
  deriving DecidableEq, Repr

abbrev SolverM := EStateM SolveFailure Solver

namespace Solver

def record (s : Solver) (e : Event) : Solver :=
  { s with journal := e.noteIn s.settings s.journal }

def constrainEqual (s : Solver) (left right : Handle) (origin : Option Span) : Solver :=
  { s with store := (s.store.addEqual left right origin).2 }

def constrainSubtype (s : Solver) (left right : Handle) (origin : Option Span)
    (color : Option Int := none) : Solver :=
  { s with store := (s.store.addSubtype left right origin color).2 }

def bounds (s : Solver) (root : Handle) : List PendingBound := (s.pending.get? root).getD []

def park (s : Solver) (root : Handle) (b : PendingBound) : Solver :=
  { s with pending := s.pending.addAll root [b] }

def noteUnrepresentable (s : Solver) (literal : Handle) (origin : Option Span) : Solver :=
  { s with unrepresentable := s.unrepresentable.insert literal origin }

end Solver

namespace SolverM

def liftFault {α : Type} : Except Fault α → SolverM α
  | .ok a => return a
  | .error f => throw (.fault f)

def mismatch {α : Type} (problem : TypeProblem) (origin : Option Span) : SolverM α :=
  throw (.mismatch ⟨problem, origin⟩)

def log (e : Event) : SolverM Unit := modify (·.record e)

def isVariable (h : Handle) : SolverM Bool := do liftFault ((← get).graph.isVariable h)

def kindOf (h : Handle) : SolverM (Option Kind) := do liftFault ((← get).graph.kindOf h)

def find (h : Handle) : SolverM Handle :=
  modifyGet fun s =>
    let (root, graph) := s.graph.find h
    (root, { s with graph })

def concrete (k : Kind) : SolverM Handle :=
  modifyGet fun s =>
    let (h, graph) := s.graph.concrete k
    (h, { s with graph })

def union (child target : Handle) : SolverM Unit := do
  let graph ← liftFault ((← get).graph.union child target)
  modify ({ · with graph })

/-- Two kinds that meet must be the same. -/
def compareKinds (c : Constraint) (problem : Kind → Kind → TypeProblem) : SolverM Unit := do
  match ← kindOf c.left, ← kindOf c.right with
  | some left, some right => if left ≠ right then mismatch (problem left right) c.origin
  | _, _ => return ()

/-- A variable on the left parks the bound at its root, unless a bound of that color waits there
already or the class is resolved. A variable on the right alone is equated with the left side. -/
def solveSubtype (c : Constraint) (color : Int) : SolverM Unit := do
  if ← isVariable c.left then
    let root ← find c.left
    match ((← get).bounds root).find? (·.color = color) with
    | some earlier => modify (·.constrainEqual earlier.right c.right c.origin)
    | none =>
      if ← isVariable root then modify (·.park root ⟨color, c.right, c.left, c.origin⟩)
      else modify (·.constrainSubtype root c.right c.origin color)
  else if ← isVariable c.right then
    let root ← find c.right
    if ← isVariable root then modify (·.constrainEqual root c.left c.origin)
    else modify (·.constrainSubtype c.left root c.origin color)
  else compareKinds c .notSubtype

/-- Moves the bounds of a merged root to the end of the other root's bounds. -/
def moveBounds (source target : Handle) : SolverM Unit := do
  let bounds := (← get).bounds source
  modify fun s => { s with pending := s.pending.erase source }
  if !bounds.isEmpty then
    let moved ← bounds.mapM fun b => return { b with right := ← find b.right }
    modify fun s => { s with pending := s.pending.addAll target moved }

def merge (child target : Handle) : SolverM Unit := do
  union child target
  moveBounds child target

/-- Equates two classes. The left root is merged if it is a variable, else the right one; two
resolved classes are compared in the next round. -/
def solveEqual (c : Constraint) : SolverM Unit := do
  let leftVariable ← isVariable c.left
  let rightVariable ← if leftVariable then pure true else isVariable c.right
  if !leftVariable && !rightVariable then compareKinds c .notEqual
  else
    let left ← find c.left
    let right ← find c.right
    if left = right then return ()
    else if ← isVariable left then merge left right
    else if ← isVariable right then merge right left
    else modify (·.constrainEqual left right c.origin)

/-- Solves one constraint; a fault on the way is placed at the constraint's origin. -/
def step (c : Constraint) : SolverM Unit :=
  EStateM.adaptExcept
    (fun
      | .fault f => .fault (f.locate none c.origin)
      | .mismatch e => .mismatch e)
    do
      let text ← liftFault (c.render (← get).graph)
      log (.trace s!"solving {text}")
      match c.relation with
      | .subtype color => solveSubtype c color
      | .equal => solveEqual c

/-- The kinds each source may take, by the bounds of a root; nothing if a bound is still open. -/
def choices (bounds : List PendingBound) : SolverM (Option (Table Handle (List Kind))) :=
  go {} bounds
where
  go (known : Table Handle (List Kind)) :
      List PendingBound → SolverM (Option (Table Handle (List Kind)))
    | [] => return some known
    | b :: rest => do
      match ← kindOf (← find b.right) with
      | some k => go (known.addAll b.source [k]) rest
      | none => return none

/-- The kinds that every source may take. -/
def commonKinds (known : Table Handle (List Kind)) : List Kind :=
  Kind.all.filter fun k => known.entries.all fun entry => entry.2.contains k

/-- The origin of the first bound whose source may not take the kind. -/
def originOutside (known : Table Handle (List Kind)) (bounds : List PendingBound) (k : Kind) :
    Option Span :=
  (bounds.find? fun b => !((known.get? b.source).getD []).contains k).bind (·.origin)

/-- Settles one class whose bounds are all known: its kind must be common to its sources, and a
single common kind is given to it. Answers whether a constraint was emitted. -/
def narrowClass (root : Handle) (bounds : List PendingBound) : SolverM Bool := do
  if !(← get).graph.isRoot root then return false
  else
    match ← choices bounds with
    | none => return false
    | some known =>
      let origin := bounds.head?.bind (·.origin)
      match ← kindOf root, commonKinds known with
      | some k, common =>
        if k ∈ common then return false
        else mismatch (.unfit k) (originOutside known bounds k <|> origin)
      | none, [] => mismatch .noCommonKind origin
      | none, [only] =>
        log (.debug s!"Narrowing ?{root} to {only.spelling}")
        let target ← concrete only
        modify (·.constrainEqual root target origin)
        return true
      | none, _ => return false

/-- A literal that no kind can hold must not be forced into one. -/
def checkUnrepresentable (literal : Handle) (origin : Option Span) : SolverM Unit := do
  match ← kindOf (← find literal) with
  | some k => mismatch (.unfit k) origin
  | none => return ()

/-- Settles the classes one after the other; answers whether a constraint was emitted. -/
def narrow : SolverM Bool := do
  (← get).unrepresentable.entries.forM fun (literal, origin) =>
    checkUnrepresentable literal origin
  (← get).pending.entries.foldlM
    (fun emitted (root, bounds) => return (← narrowClass root bounds) || emitted) false

/-- Takes the worklist, round after round, and narrows when it is empty. Answers the numbers of
rounds and of constraints solved. -/
def rounds (narrowing : Bool) : (fuel : Nat) → (count processed : Nat) → SolverM (Nat × Nat)
  | 0, count, processed => return (count, processed)
  | fuel + 1, count, processed => do
    let batch ← modifyGet fun s =>
      let (batch, store) := s.store.takeBatch
      (batch, { s with store })
    if batch.isEmpty then
      if !narrowing then return (count, processed)
      else if ← narrow then rounds narrowing fuel count processed
      else return (count, processed)
    else
      log (.debug s!"Solver round {count + 1}: {batch.size} constraint(s)")
      batch.toList.forM step
      rounds narrowing fuel (count + 1) (processed + batch.size)

/-- A constraint leads to at most three more, and each variable is narrowed at most once. -/
def roundLimit (s : Solver) : Nat := 4 * s.store.worklist.size + 2 * s.graph.size + 2

/-- Solves to a fixpoint; answers the number of constraints solved. -/
def solve (narrowing : Bool) : SolverM Nat := do
  let (count, processed) ← rounds narrowing (roundLimit (← get)) 0 0
  log (.debug s!"Solver reached fixpoint after {count} round(s), {processed} constraint(s)")
  return processed

end SolverM

end ConstFun
