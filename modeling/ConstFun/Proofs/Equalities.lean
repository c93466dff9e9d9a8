import ConstFun.Proofs.Obligations

namespace ConstFun

open TypeGraph

/-- The equalities among the constraints link two handles, in any number of steps. -/
def Links (cs : List Constraint) : Handle → Handle → Prop := Relation.EqvGen (Equates cs)

namespace Links

variable {cs : List Constraint} {a b : Handle}

theorem symm (links : Links cs a b) : Links cs b a := Relation.EqvGen.symm _ _ links

theorem trans {c : Handle} (first : Links cs a b) (second : Links cs b c) : Links cs a c :=
  Relation.EqvGen.trans _ _ _ first second

theorem of_mem {c : Constraint} (mem : c ∈ cs) (equal : c.relation = .equal) :
    Links cs c.left c.right := .rel _ _ ⟨c, mem, equal, rfl, rfl⟩

theorem append (links : Links cs a b) (new : List Constraint) : Links (cs ++ new) a b := by
  have more : Equates cs ≤ Equates (cs ++ new) := fun _ _ equates => equates.append
  exact Relation.EqvGen.mono more _ _ links

theorem eq_of_agree {f : Handle → Handle} (links : Links cs a b)
    (agree : ∀ c ∈ cs, c.relation = .equal → f c.left = f c.right) : f a = f b := by
  have one : Equates cs ≤ fun a b => f a = f b := by
    rintro _ _ ⟨c, mem, equal, rfl, rfl⟩
    exact agree c mem equal
  exact (eq_equivalence.comap f).eqvGen_iff.mp (Relation.EqvGen.mono one _ _ links)

end Links

/-- The class that is merged into another one is related to it by the constraint itself. -/
theorem Solves.rooted {c : Constraint} {s t : Solver} (wf : s.graph.WellFormed)
    (solved : Solves c s t) {R : Handle → Handle → Prop} (eqv : Equivalence R)
    (edge : c.relation = .equal → R c.left c.right) (rooted : ∀ h, R h (s.graph.root h))
    (h : Handle) : R h (t.graph.root h) := by
  rcases solved.graph_cases wf with same | ⟨child, target, equal, sides, _, top, _, merges⟩
  · rw [same.root_eq]
    exact rooted h
  have roots : R (s.graph.root c.left) (s.graph.root c.right) :=
    eqv.trans (eqv.symm (rooted c.left)) (eqv.trans (edge equal) (rooted c.right))
  have joined : R child target := by
    rcases sides with ⟨rfl, rfl⟩ | ⟨rfl, rfl⟩
    · exact roots
    · exact eqv.symm roots
  rw [merges.root_eq, top]
  split
  next moved => exact eqv.trans (rooted h) (moved ▸ joined)
  next => exact rooted h

namespace Solver

/-- Every handle is linked with its root by the equalities of the log. -/
def Grounded (s : Solver) : Prop := ∀ h, Links s.store.log.toList h (s.graph.root h)

variable {s t : Solver}

theorem Grounded.links (grounded : s.Grounded) {a b : Handle}
    (same : s.graph.root a = s.graph.root b) : Links s.store.log.toList a b := by
  have up := grounded a
  rw [same] at up
  exact up.trans (grounded b).symm

theorem Grounded.keep (grounded : s.Grounded) {new : List Constraint}
    (roots : ∀ h, t.graph.root h = s.graph.root h)
    (log : t.store.log.toList = s.store.log.toList ++ new) : t.Grounded := by
  intro h
  rw [roots, log]
  exact (grounded h).append new

theorem Grounded.compress (grounded : s.Grounded) (same : Compresses s.graph t.graph)
    (log : t.store.log = s.store.log) : t.Grounded := by
  have nothing : t.store.log.toList = s.store.log.toList ++ [] := by rw [log, List.append_nil]
  exact grounded.keep same.root_eq nothing

theorem Grounded.solve (grounded : s.Grounded) (con : s.Consistent) {c : Constraint}
    (named : c.Names s.graph) (logged : c ∈ s.store.log.toList) (solved : Solves c s t) :
    t.Grounded := by
  obtain ⟨new, emitted, _⟩ := solved.emits con named
  have eqv : Equivalence (Links s.store.log.toList) := Relation.EqvGen.is_equivalence _
  intro h
  rw [emitted.log]
  exact Links.append (solved.rooted con.forest eqv (Links.of_mem logged) grounded h) new

end Solver

section Runs

variable {narrowing : Bool} {first : Solver} {p q : Point}

theorem Passes.logged (passes : Passes narrowing (Point.start first) p) (con : first.Consistent)
    (queued : first.Queued) (runs : ∀ e, p.stage ≠ .failed e) :
    ∀ c ∈ p.ahead, c ∈ p.solver.store.log.toList := by
  obtain ⟨later, log, order⟩ := passes.in_order con runs
  obtain ⟨before, waiting⟩ := queued
  intro c mem
  have known : c ∈ p.solved ++ p.ahead := List.mem_append.mpr (.inr mem)
  rw [order] at known
  rw [log, ← waiting, List.append_assoc]
  exact List.mem_append.mpr (.inr known)

theorem Effect.grounded (effect : Effect narrowing p q) (con : p.Consistent)
    (logged : ∀ c ∈ p.ahead, c ∈ p.solver.store.log.toList) (grounded : p.solver.Grounded) :
    q.solver.Grounded := by
  have wf := con.solver.forest
  cases effect with
  | solve named solved =>
    exact grounded.solve con.solver named (logged _ (by simp [Point.ahead])) solved
  | settle kept settled =>
    obtain ⟨new, emitted, _⟩ := settled.emits con.solver kept
    exact grounded.keep (settled.compresses wf).root_eq emitted.log
  | check same _ | refuse same _ | unsettled _ _ same => exact grounded.compress same rfl
  | take _ | review _ _ | rest _ _ | clash _ _ _ | unknown _ | again | checked | settled =>
    exact grounded.compress (.refl wf) rfl

theorem Passes.grounded (passes : Passes narrowing (Point.start first) p) (con : first.Consistent)
    (queued : first.Queued) (grounded : first.Grounded) : p.solver.Grounded :=
  passes.induct_reached (I := fun p => p.solver.Grounded) con.start grounded
    fun path effect => effect.grounded (path.consistent con.start)
      (path.logged con queued effect.runs)

theorem Solver.Grounded.run (grounded : first.Grounded) (con : first.Consistent)
    (queued : first.Queued) (narrowing : Bool) :
    Ends (SolverM.solve narrowing) first (fun _ t => t.Grounded) (fun _ t => t.Grounded) := by
  refine (solve_ends narrowing con).imp ?_ ?_
  · rintro count _ ⟨last, r, solved, _, _, rfl, passes⟩
    exact passes.grounded con queued grounded
  · rintro e t ⟨r, solved, passes⟩
    exact passes.grounded con queued grounded

end Runs

namespace Session

variable {options : TypingOptions} {n : Nat} {s t : Session}

/-- What holds of a new session and is kept by operations and by runs, however they end, holds of
every session. -/
theorem Driven.induct {I : Solver → Prop} (driven : Driven options n s)
    (new : I (Session.new options).toSolver)
    (operate : ∀ {n s t}, Driven options n s → Operates s t → I s.toSolver → I t.toSolver)
    (run : ∀ {n s}, Driven options n s → I s.toSolver → ∀ narrowing,
      Ends (SolverM.solve narrowing) s.toSolver (fun _ t => I t) (fun _ t => I t)) :
    I s.toSolver := by
  have ran : ∀ {n s}, Driven options n s → I s.toSolver → ∀ narrowing,
      I (after (onSolver (SolverM.solve narrowing)) s).toSolver := by
    intro n s driven kept narrowing
    have ends := run driven kept narrowing
    unfold after onSolver
    unfold Ends at ends
    cases ran : SolverM.solve narrowing s.toSolver <;> simpa [ran] using ends
  induction driven with
  | new => exact new
  | infer d key l ih => exact operate d (.infer _ key l) ih
  | newVariable d ih => exact operate d (.newVariable _) ih
  | concrete d k ih => exact operate d (.concrete _ k) ih
  | constrainEqual d left right origin ih =>
    exact operate d (.constrainEqual _ left right origin) ih
  | constrainSubtype d left right origin color ih =>
    exact operate d (.constrainSubtype _ left right origin color) ih
  | freshColor d ih => exact operate d (.freshColor _) ih
  | reify d h ih => exact operate d (.reify _ h) ih
  | run d narrowing ih => exact ran d ih narrowing
  | @solve n s d ih =>
    by_cases once : s.solved
    · have same : after Session.solve s = s := by simp [after, solve_eq, once]
      rw [same]
      exact ih
    · have same : (after Session.solve s).toSolver =
          (after (onSolver (SolverM.solve s.options.narrowing)) s).toSolver := by
        unfold after onSolver
        rw [solve_eq, if_neg once]
        cases ran : SolverM.solve s.options.narrowing s.toSolver <;> simp [onSolver, ran]
      rw [same]
      exact ran d ih s.options.narrowing

theorem Driven.grounded (driven : Driven options n s) : s.toSolver.Grounded := by
  refine driven.induct (fun h => .refl h) ?_ ?_
  · intro n s t driven op grounded
    obtain ⟨new, grown⟩ := op.extends driven.wellKept.consistent
    exact grounded.keep grown.root_eq grown.emits.log
  · intro n s driven grounded narrowing
    exact grounded.run driven.wellKept.consistent driven.wellKept.queued narrowing

/-- At each point of a run, and however it ends, two handles are in one class only if the equalities
of the log so far link them. When it ends normally, and so did all runs before it, they are in one
class if and only if the equalities of the final log link them. -/
theorem Driven.classes_are_links (driven : Driven options n s) (narrowing : Bool) :
    (∀ p, Passes narrowing (Point.start s.toSolver) p → ∀ a b,
      (p.solver.graph.find a).1 = (p.solver.graph.find b).1 →
        Relation.EqvGen (Equates p.solver.store.log.toList) a b) ∧
    Ends (SolverM.solve narrowing) s.toSolver
      (fun _ t => Steady options s → ∀ a b, (t.graph.find a).1 = (t.graph.find b).1 ↔
        Relation.EqvGen (Equates t.store.log.toList) a b)
      (fun _ t => ∀ a b, (t.graph.find a).1 = (t.graph.find b).1 →
        Relation.EqvGen (Equates t.store.log.toList) a b) := by
  have con := driven.wellKept.consistent
  have queued := driven.wellKept.queued
  refine ⟨fun p passes a b same => (passes.grounded con queued driven.grounded).links same, ?_⟩
  have grounded := driven.grounded.run con queued narrowing
  unfold Ends at grounded ⊢
  cases ran : SolverM.solve narrowing s.toSolver with
  | error e t =>
    simp only [ran] at grounded ⊢
    exact fun a b => grounded.links
  | ok count t =>
    simp only [ran] at grounded ⊢
    intro steady a b
    refine ⟨grounded.links, fun links => ?_⟩
    obtain ⟨-, met⟩ := steady.abides.run con ran
    exact Links.eq_of_agree links fun c mem equal => (met c mem).equal equal

theorem classes_are_links_movedBound :
    Driven {} 0 movedBound ∧ Steady {} movedBound ∧
      ∀ narrowing, ∃ count t, SolverM.solve narrowing movedBound.toSolver = .ok count t ∧
        ∀ a b, (t.graph.find a).1 = (t.graph.find b).1 ↔
          Relation.EqvGen (Equates t.store.log.toList) a b := by
  have driven : Driven {} 0 movedBound :=
    .constrainEqual (.constrainEqual (.constrainSubtype (.concrete (.newVariable (.newVariable
      (.newVariable .new))) .i32) 0 1 none (some 7)) 1 3 none) 0 2 none
  refine ⟨driven, movedBound_steady, fun narrowing => ?_⟩
  have ends := (driven.classes_are_links narrowing).2
  have normal : (match SolverM.solve narrowing movedBound.toSolver with
      | .ok _ _ => true
      | .error _ _ => false) = true := by
    cases narrowing <;> decide +kernel
  cases ran : SolverM.solve narrowing movedBound.toSolver with
  | error e t => simp [ran] at normal
  | ok count t =>
    simp only [Ends, ran] at ends
    exact ⟨count, t, rfl, ends movedBound_steady⟩

end Session

end ConstFun
