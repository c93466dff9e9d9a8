import ConstFun.Proofs.Narrowing

namespace ConstFun

/-- What holds after a computation, whether it ends normally or fails. -/
def Ends {ε σ α : Type} (m : EStateM ε σ α) (s : σ) (normal : α → σ → Prop)
    (failed : ε → σ → Prop) : Prop :=
  match m s with
  | .ok a t => normal a t
  | .error e t => failed e t

namespace Ends

variable {ε σ α β : Type} {m : EStateM ε σ α} {s : σ}

theorem imp {normal normal' : α → σ → Prop} {failed failed' : ε → σ → Prop}
    (ends : Ends m s normal failed) (more : ∀ a t, normal a t → normal' a t)
    (also : ∀ e t, failed e t → failed' e t) : Ends m s normal' failed' := by
  unfold Ends at *
  split <;> simp_all

theorem bind {f : α → EStateM ε σ β} {normal : β → σ → Prop} {failed : ε → σ → Prop}
    (first : Ends m s (fun a t => Ends (f a) t normal failed) failed) :
    Ends (m >>= f) s normal failed := by
  unfold Ends at first
  split at first
  next run =>
    unfold Ends
    rw [bind_of_ok run]
    exact first
  next run =>
    unfold Ends
    rw [bind_of_error run]
    exact first

end Ends

/-- What is left to do before the next look at the worklist. -/
inductive Stage where
  | draining
  | solving (rest : List Constraint)
  | checking (rest : List (Handle × Option Span))
  | settling (rest : List (Handle × List PendingBound)) (emitted : Bool)
  | finished
  | failed (e : SolveFailure)

/-- A point of a run, with the number of rounds begun and the constraints solved so far. -/
structure Point where
  stage : Stage
  solver : Solver
  round : Nat := 0
  solved : List Constraint := []

def Point.start (s : Solver) : Point := ⟨.draining, s, 0, []⟩

namespace Solver

/-- The solver after its worklist was taken. -/
def drained (s : Solver) : Solver := { s with store := s.store.takeBatch.2 }

/-- How a round is logged. -/
def roundEvent (round size : Nat) : Event :=
  .debug s!"Solver round {round + 1}: {size} constraint(s)"

/-- How the end of solving is logged. -/
def fixpointEvent (rounds size : Nat) : Event :=
  .debug s!"Solver reached fixpoint after {rounds} round(s), {size} constraint(s)"

end Solver

/-- One act of a run. -/
inductive Acts (narrowing : Bool) : Point → Point → Prop
  | take {s : Solver} {r : Nat} {done : List Constraint}
      (some_left : s.store.worklist.isEmpty = false) :
      Acts narrowing ⟨.draining, s, r, done⟩
        ⟨.solving s.store.worklist.toList,
          s.drained.record (Solver.roundEvent r s.store.worklist.size), r + 1, done⟩
  | review {s : Solver} {r : Nat} {done : List Constraint}
      (none_left : s.store.worklist.isEmpty = true) (on : narrowing = true) :
      Acts narrowing ⟨.draining, s, r, done⟩
        ⟨.checking s.unrepresentable.entries, s.drained, r, done⟩
  | rest {s : Solver} {r : Nat} {done : List Constraint}
      (none_left : s.store.worklist.isEmpty = true) (off : narrowing = false) :
      Acts narrowing ⟨.draining, s, r, done⟩ ⟨.finished, s.drained, r, done⟩
  | solve {s t : Solver} {r : Nat} {done : List Constraint} {c : Constraint}
      {cs : List Constraint} (run : SolverM.step c s = .ok () t) :
      Acts narrowing ⟨.solving (c :: cs), s, r, done⟩ ⟨.solving cs, t, r, done ++ [c]⟩
  | mismatch {s t : Solver} {r : Nat} {done : List Constraint} {c : Constraint}
      {cs : List Constraint} {e : SolveFailure} (run : SolverM.step c s = .error e t) :
      Acts narrowing ⟨.solving (c :: cs), s, r, done⟩ ⟨.failed e, t, r, done⟩
  | again {s : Solver} {r : Nat} {done : List Constraint} :
      Acts narrowing ⟨.solving [], s, r, done⟩ ⟨.draining, s, r, done⟩
  | check {s t : Solver} {r : Nat} {done : List Constraint} {literal : Handle}
      {origin : Option Span} {ls : List (Handle × Option Span)}
      (run : SolverM.checkUnrepresentable literal origin s = .ok () t) :
      Acts narrowing ⟨.checking ((literal, origin) :: ls), s, r, done⟩ ⟨.checking ls, t, r, done⟩
  | refuse {s t : Solver} {r : Nat} {done : List Constraint} {literal : Handle}
      {origin : Option Span} {ls : List (Handle × Option Span)} {e : SolveFailure}
      (run : SolverM.checkUnrepresentable literal origin s = .error e t) :
      Acts narrowing ⟨.checking ((literal, origin) :: ls), s, r, done⟩ ⟨.failed e, t, r, done⟩
  | checked {s : Solver} {r : Nat} {done : List Constraint} :
      Acts narrowing ⟨.checking [], s, r, done⟩ ⟨.settling s.pending.entries false, s, r, done⟩
  | settle {s t : Solver} {r : Nat} {done : List Constraint} {root : Handle}
      {bounds : List PendingBound} {es : List (Handle × List PendingBound)} {before now : Bool}
      (run : SolverM.narrowClass root bounds s = .ok now t) :
      Acts narrowing ⟨.settling ((root, bounds) :: es) before, s, r, done⟩
        ⟨.settling es (now || before), t, r, done⟩
  | unsettled {s t : Solver} {r : Nat} {done : List Constraint} {root : Handle}
      {bounds : List PendingBound} {es : List (Handle × List PendingBound)} {before : Bool}
      {e : SolveFailure} (run : SolverM.narrowClass root bounds s = .error e t) :
      Acts narrowing ⟨.settling ((root, bounds) :: es) before, s, r, done⟩
        ⟨.failed e, t, r, done⟩
  | settled {s : Solver} {r : Nat} {done : List Constraint} {emitted : Bool} :
      Acts narrowing ⟨.settling [] emitted, s, r, done⟩
        ⟨if emitted then .draining else .finished, s, r, done⟩

/-- The points that a run passes from a point on. -/
def Passes (narrowing : Bool) : Point → Point → Prop := Relation.ReflTransGen (Acts narrowing)

namespace Passes

variable {narrowing : Bool} {p q : Point}

/-- What holds at a point and is kept by every act holds at all later points. -/
theorem invariant {I : Point → Prop} (passes : Passes narrowing p q) (start : I p)
    (kept : ∀ {p q}, Acts narrowing p q → I p → I q) : I q := by
  induction passes with
  | refl => exact start
  | tail _ act ih => exact kept act ih

end Passes

end ConstFun
