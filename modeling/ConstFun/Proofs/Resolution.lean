import ConstFun.Proofs.Declarations
import ConstFun.Proofs.Equalities

namespace ConstFun

open TypeGraph

/-- A run that does not narrow has joined only what its session links, and fails only where two
kinds are linked. -/
def Point.Unnarrowed (first : Session) (p : Point) : Prop :=
  match p.stage with
  | .checking _ | .settling _ _ => False
  | .failed (.mismatch _) => first.Conflict
  | .failed (.fault _) => True
  | _ => (∀ h, first.Linked h (p.solver.graph.root h)) ∧
    ∀ c ∈ p.ahead, c.relation = .equal → first.Linked c.left c.right

section Runs

variable {first : Session} {p q : Point}

/-- The equalities that solving emits are links, as long as those ahead are. -/
theorem Session.Typed.linked_ahead {s t : Solver} {solved cs : List Constraint} {c : Constraint}
    (laid : first.Laid)
    (typed : first.Typed s solved (c :: cs ++ s.store.worklist.toList)) (step : Solves c s t)
    (rooted : ∀ h, first.Linked h (s.graph.root h))
    (ahead : ∀ c' ∈ c :: cs ++ s.store.worklist.toList, c'.relation = .equal →
      first.Linked c'.left c'.right) :
    ∀ c' ∈ cs ++ t.store.worklist.toList, c'.relation = .equal → first.Linked c'.left c'.right := by
  have offered := typed.kind_of_offer laid (c := c) (by simp)
  have old : ∀ c' ∈ cs ++ s.store.worklist.toList, c'.relation = .equal →
      first.Linked c'.left c'.right := fun c' mem => ahead c' (List.mem_cons_of_mem c mem)
  have emits : ∀ e : Constraint, Emits s t [e] →
      (e.relation = .equal → first.Linked e.left e.right) →
      ∀ c' ∈ cs ++ t.store.worklist.toList, c'.relation = .equal →
        first.Linked c'.left c'.right := by
    intro e emitted new c' mem
    rw [emitted.worklist, ← List.append_assoc] at mem
    rcases List.mem_append.mp mem with mem | mem
    · exact old c' mem
    · rw [List.mem_singleton.mp mem]
      exact new
  cases step with
  | @equated color earlier g j sub _ found _ =>
    have taken : earlier.color = color := by simpa using List.find?_some found
    exact absurd taken (typed.fresh_color sub (List.mem_of_find?_eq_some found))
  | collapsed sub kind _ _ _ =>
    rw [offered (by simp [sub])] at kind
    cases kind
  | @lifted color k g j _ _ _ _ _ => exact emits _ (.subtype g j _ _ _ color) (by simp)
  | @lowered color k k' g j _ _ _ _ _ => exact emits _ (.subtype g j _ _ _ color) (by simp)
  | @deferred k k' g j equal _ _ _ _ _ =>
    refine emits _ (.equal g j _ _ _) fun _ => ?_
    have edge := ahead c (by simp) equal
    exact (rooted c.left).symm.trans (edge.trans (rooted c.right))
  | parked _ _ _ _ _ | agreed _ _ | joined _ _ _ _ | merged _ _ _ _ _ _ => exact old

theorem Effect.unnarrowed (laid : first.Laid) (effect : Effect false p q) (con : p.Consistent)
    (sound : p.Sound first) (unnarrowed : p.Unnarrowed first) : q.Unnarrowed first := by
  have wf := con.solver.forest
  cases effect with
  | take _ =>
    obtain ⟨rooted, ahead⟩ := unnarrowed
    refine ⟨rooted, fun c mem => ahead c ?_⟩
    simpa [Point.ahead, Solver.record, Solver.drained, ConstraintStore.takeBatch] using mem
  | review _ on => cases on
  | rest _ _ =>
    obtain ⟨rooted, _⟩ := unnarrowed
    refine ⟨rooted, fun c mem => ?_⟩
    simp [Point.ahead, Solver.drained, ConstraintStore.takeBatch] at mem
  | solve named solved =>
    obtain ⟨rooted, ahead⟩ := unnarrowed
    have eqv : Equivalence first.Linked := Relation.EqvGen.is_equivalence _
    refine ⟨solved.rooted wf eqv (ahead _ (by simp [Point.ahead])) rooted, ?_⟩
    exact Session.Typed.linked_ahead laid sound solved rooted ahead
  | clash differ left right =>
    exact (Session.Typed.conflict_of_clash laid sound differ left right).2
  | unknown _ => exact trivial
  | again => exact unnarrowed
  | check _ _ | refuse _ _ | checked | settle _ _ | unsettled _ _ _ | settled =>
    exact unnarrowed.elim

theorem Passes.unnarrowed (laid : first.Laid)
    (passes : Passes false (Point.start first.toSolver) p) : p.Unnarrowed first := by
  have con := laid.consistent
  have start : (Point.start first.toSolver).Unnarrowed first := by
    refine ⟨fun h => ?_, fun c mem equal => ?_⟩
    · change first.Linked h (first.graph.root h)
      rw [WellFormed.root_of_root (laid.unlinked h)]
      exact .refl first h
    · refine Relation.EqvGen.rel _ _ ⟨c, ?_, equal, rfl, rfl⟩
      rw [laid.waiting]
      exact mem
  exact passes.induct_reached con.start start fun path effect =>
    effect.unnarrowed laid (path.consistent con.start) (path.sound laid con)

end Runs

namespace Session

/-- How a solver stands to its session after a run without narrowing. -/
structure Agreed (first : Session) (s : Solver) : Prop where
  forest : s.graph.WellFormed
  nodes : ∀ h, s.graph.Has h ↔ first.graph.Has h
  kinds : ∀ h k, s.graph.classKind? h = some k ↔ first.Holds h k

theorem agreed_of_finished {first : Session} (laid : Laid first) {last : Solver} {r : Nat}
    {solved : List Constraint}
    (passes : Passes false (Point.start first.toSolver) ⟨.finished, last, r, solved⟩) :
    Agreed first last := by
  have con := laid.consistent
  have typed : first.Typed last solved last.store.worklist.toList := passes.sound laid con
  have ended := (passes.consistent con.start).solver
  have rest := typed.atRest laid ended (passes.covers con) (passes.drained con laid.named)
  obtain ⟨rooted, _⟩ := passes.unnarrowed laid
  refine ⟨ended.forest, passes.has_iff con, fun h k => ⟨fun kind => ?_, ?_⟩⟩
  · exact ⟨last.graph.root h, (rest.kinds _).symm.trans kind, rooted h⟩
  · rintro ⟨c, kind, linked⟩
    rw [← rest.kinds] at kind
    rw [classKind?, rest.closed h c linked, WellFormed.root_of_kind? kind, kind]

theorem Laid.solve_unnarrowed {s : Session} (laid : Laid s) (off : s.options.narrowing = false) :
    Ends Session.solve s
      (fun _ t => Agreed s t.toSolver ∧ t.options = s.options ∧ t.literals = s.literals ∧
        t.solved = true)
      (fun _ _ => s.Conflict) := by
  have con := laid.consistent
  refine solve_lift laid.unsolved ?_
  rw [off]
  refine (ConstFun.solve_ends false con).imp ?_ ?_
  · rintro count _ ⟨last, r, solved, _, _, rfl, passes⟩
    have agreed := agreed_of_finished laid passes
    exact ⟨agreed.forest, agreed.nodes, agreed.kinds⟩
  · rintro e t ⟨r, solved, passes⟩
    obtain ⟨m, rfl⟩ := passes.mismatch con laid.named rfl
    exact passes.unnarrowed laid

end Session

/-- The kind that a function's body gets: with narrowing, it is the declared one or else the only
one that can hold it; without, it is the declared one. -/
def FunctionDecl.resolvedKind? (options : TypingOptions) (f : FunctionDecl) : Option Kind :=
  if options.narrowing then f.bodyKind? options.exactUnsigned else f.declaredKind?

namespace Session

/-- The session is solved, and has given the bodies of the functions their kinds. -/
structure Resolved (fs : List FunctionDecl) (s : Session) : Prop where
  forest : s.graph.WellFormed
  solved : s.solved = true
  bodies : fs.map (·.body) = s.literals.map TypedLiteral.body
  nodes : ∀ l ∈ s.literals, s.graph.Has l.handle
  kinds : ∀ f ∈ fs, ∀ h, f.body.type = some h →
    s.graph.classKind? h = f.resolvedKind? s.options

namespace Resolved

variable {fs : List FunctionDecl} {s : Session}

theorem log (resolved : Resolved fs s) (journal : Array Event) :
    Resolved fs { s with journal } :=
  { resolved with }

theorem exists_literal (resolved : Resolved fs s) {f : FunctionDecl} (hf : f ∈ fs) :
    ∃ l ∈ s.literals, f.body = l.body :=
  TypedLiteral.exists_of_bodies resolved.bodies hf

theorem exists_class (resolved : Resolved fs s) {f : FunctionDecl} (hf : f ∈ fs) :
    ∃ h, f.body.type = some h ∧ s.graph.Has h ∧
      s.graph.classKind? h = f.resolvedKind? s.options := by
  obtain ⟨l, hl, body⟩ := resolved.exists_literal hf
  have type : f.body.type = some l.handle := body ▸ l.body_type
  exact ⟨l.handle, type, resolved.nodes l hl, resolved.kinds f hf _ type⟩

theorem exists_classKind (resolved : Resolved fs s) {f : FunctionDecl} (hf : f ∈ fs) :
    ∃ h, f.body.type = some h ∧ s.graph.classKind h = .ok (f.resolvedKind? s.options) := by
  obtain ⟨h, type, has, kind⟩ := resolved.exists_class hf
  refine ⟨h, type, (kindOf_eq (resolved.forest.root_has has)).trans ?_⟩
  rw [← kind]
  rfl

theorem exists_kind (resolved : Resolved fs s) {f : FunctionDecl} (hf : f ∈ fs) :
    ∃ h t, f.body.type = some h ∧ reifyKind h s = .ok (f.resolvedKind? s.options) t := by
  obtain ⟨h, type, has, kind⟩ := resolved.exists_class hf
  obtain ⟨t, read⟩ := reifyKind_eq resolved.forest has
  rw [kind] at read
  exact ⟨h, t, type, read⟩

end Resolved

theorem Declared.resolved {fs : List FunctionDecl} {s t : Session} (declared : Declared fs s)
    (forest : t.graph.WellFormed) (nodes : ∀ h, t.graph.Has h ↔ s.graph.Has h)
    (kept : t.options = s.options ∧ t.literals = s.literals ∧ t.solved = true)
    (kinds : ∀ f ∈ fs, ∀ h, f.body.type = some h →
      t.graph.classKind? h = f.resolvedKind? s.options) : Resolved fs t := by
  obtain ⟨options, literals, solved⟩ := kept
  refine ⟨forest, solved, literals ▸ declared.bodies, fun l hl => ?_, options ▸ kinds⟩
  exact (nodes _).mpr (declared.laid.isVariable l (literals ▸ hl)).1

/-- Solving the session of declared functions gives each its kind, or finds with narrowing one that
does not fit its return type. -/
theorem Declared.solve_ends {fs : List FunctionDecl} {s : Session} (declared : Declared fs s)
    (placed : ∀ f ∈ fs, f.body.span ≠ none) :
    Ends Session.solve s
      (fun _ t => t.options = s.options ∧ Resolved fs t ∧
        (s.options.narrowing = true → ∀ f ∈ fs, ∀ k, ¬f.Unfit s.options.exactUnsigned k))
      (fun e _ => s.options.narrowing = true ∧ ∃ f ∈ fs, ∃ k, f.Unfit s.options.exactUnsigned k ∧
        e = .mismatch ⟨.unfit k, f.body.span⟩) := by
  have laid := declared.laid
  cases mode : s.options.narrowing with
  | true =>
    refine (laid.solve_ends mode).imp ?_ ?_
    · rintro count t ⟨decided, kept⟩
      have forest := decided.rest.consistent.forest
      refine ⟨kept.1, declared.resolved forest decided.nodes kept ?_, fun _ f hf k unfit => ?_⟩
      · intro f hf h type
        rw [FunctionDecl.resolvedKind?, mode]
        exact declared.classKind?_eq decided hf type
      · obtain ⟨l, _, body⟩ := declared.exists_literal hf
        have misfit := declared.misfit_of_unfit hf (body ▸ l.body_type) unfit
        exact decided.well_typed laid (.inr (.inl misfit))
    · rintro e t ⟨m, rfl, verdict⟩
      obtain ⟨f, hf, k, unfit, rfl⟩ := declared.unfit_of_verdict placed verdict
      exact ⟨rfl, f, hf, k, unfit, rfl⟩
  | false =>
    refine (laid.solve_unnarrowed mode).imp ?_ ?_
    · rintro count t ⟨agreed, kept⟩
      refine ⟨kept.1, declared.resolved agreed.forest agreed.nodes kept ?_, by simp⟩
      intro f hf h type
      rw [FunctionDecl.resolvedKind?, mode]
      ext k
      rw [agreed.kinds, declared.holds_iff hf type]
      simp
    · rintro e t conflict
      exact absurd conflict declared.no_conflict

end Session

end ConstFun
