import ConstFun.Inference.Graph

namespace ConstFun

/-- Subtype constraints born of one event share a color. -/
inductive Relation where
  | subtype (color : Int)
  | equal
  deriving DecidableEq, Repr

structure Constraint where
  left : Handle
  relation : Relation
  right : Handle
  origin : Option Span := none
  deriving DecidableEq, Repr

/-- A constraint with its sides as the graph describes them. -/
def Constraint.render (g : TypeGraph) (c : Constraint) : Except Fault String := do
  let left ← g.describe c.left
  let right ← g.describe c.right
  match c.relation with
  | .subtype color => return s!"{left} <:{color} {right}"
  | .equal => return s!"{left} = {right}"

/-- `log` holds every constraint ever emitted, `worklist` those not yet taken. -/
structure ConstraintStore where
  log : Array Constraint := #[]
  worklist : Array Constraint := #[]
  nextColor : Nat := 0
  deriving DecidableEq, Repr

namespace ConstraintStore

def freshColor (s : ConstraintStore) : Int × ConstraintStore :=
  (s.nextColor, { s with nextColor := s.nextColor + 1 })

def push (s : ConstraintStore) (c : Constraint) : ConstraintStore :=
  { s with log := s.log.push c, worklist := s.worklist.push c }

/-- A subtype constraint without a color takes a fresh one. -/
def addSubtype (s : ConstraintStore) (left right : Handle) (origin : Option Span)
    (color : Option Int := none) : Constraint × ConstraintStore :=
  let (color, s) := match color with
    | some c => (c, s)
    | none => s.freshColor
  let c : Constraint := ⟨left, .subtype color, right, origin⟩
  (c, s.push c)

def addEqual (s : ConstraintStore) (left right : Handle) (origin : Option Span) :
    Constraint × ConstraintStore :=
  let c : Constraint := ⟨left, .equal, right, origin⟩
  (c, s.push c)

/-- Takes the whole worklist. -/
def takeBatch (s : ConstraintStore) : Array Constraint × ConstraintStore :=
  (s.worklist, { s with worklist := #[] })

end ConstraintStore

end ConstFun
