import ConstFun.Proofs.Verdict

namespace ConstFun

open TypeGraph

namespace Session

theorem Sole.exists_literal {first : Session} {h : Handle} {k : Kind} (sole : first.Sole h k) :
    ∃ l ∈ first.literals, first.Linked l.handle h ∧ first.kinds l ≠ [] := by
  by_contra absent
  have shared : ∀ k', first.Shared h k' := fun k' l hl linked some_kind =>
    absurd ⟨l, hl, linked, some_kind⟩ absent
  have other : ∃ k', k' ≠ k := by
    cases k with
    | i8 => exact ⟨.i16, by decide⟩
    | _ => exact ⟨.i8, by decide⟩
  obtain ⟨k', differ⟩ := other
  exact differ ((sole.2 k').mp (shared k'))

/-- How a solver stands to its session after a run with narrowing. -/
structure Decided (first : Session) (s : Solver) : Prop where
  rest : AtRest first s
  nodes : ∀ h, s.graph.Has h ↔ first.graph.Has h
  refused : ∀ l ∈ first.literals, first.kinds l = [] → s.graph.classKind? l.handle = none
  settled : ∀ key bounds, s.pending.get? key = some bounds → Settled s.graph key bounds

theorem decided_of_finished {first : Session} (laid : Laid first)
    (con : first.toSolver.Consistent) {last : Solver} {r : Nat} {solved : List Constraint}
    (passes : Passes true (Point.start first.toSolver) ⟨.finished, last, r, solved⟩) :
    Decided first last := by
  have typed : first.Typed last solved last.store.worklist.toList := passes.sound laid con
  have ended := (passes.consistent con.start).solver
  obtain ⟨literals, classes⟩ := passes.reviewed con rfl
  have same : last.unrepresentable = first.unrepresentable := (passes.listed con).1
  refine ⟨typed.atRest laid ended (passes.covers con) (passes.drained con laid.named),
    passes.has_iff con, ?_, ?_⟩
  · intro l hl none
    refine literals (l.handle, l.literal.span) ?_
    rw [same]
    exact (laid.refused _).mpr ⟨l, hl, none, rfl⟩
  · exact fun key bounds kept => classes _ (ended.distinct.mem_entries.mpr kept)

namespace Decided

variable {first : Session} {s : Solver} {h : Handle} {k : Kind}

theorem record (decided : Decided first s) (e : Event) : Decided first (s.record e) := by
  have con := decided.rest.consistent
  exact { decided with
    rest := { decided.rest with consistent := con.compress (.refl con.forest) rfl rfl } }

theorem exists_bounds (decided : Decided first s) {l : TypedLiteral} (hl : l ∈ first.literals)
    (some_kind : first.kinds l ≠ []) :
    ∃ bounds, s.pending.get? (s.graph.root l.handle) = some bounds := by
  obtain ⟨k, hk⟩ := List.exists_mem_of_ne_nil _ some_kind
  obtain ⟨b, mem, _⟩ := decided.rest.offered l hl k hk
  unfold Solver.bounds at mem
  cases kept : s.pending.get? (s.graph.root l.handle) with
  | none => simp [kept] at mem
  | some bounds => exact ⟨bounds, rfl⟩

/-- The literals of a class that stays open share two kinds. -/
theorem shared_twice (laid : Laid first) (decided : Decided first s) {l : TypedLiteral}
    (hl : l ∈ first.literals) (some_kind : first.kinds l ≠ [])
    (isOpen : s.graph.classKind? l.handle = none) :
    ∃ k k', k ≠ k' ∧ first.Shared l.handle k ∧ first.Shared l.handle k' := by
  obtain ⟨bounds, kept⟩ := decided.exists_bounds hl some_kind
  have rest := decided.rest
  have top := rest.consistent.forest.root_root l.handle
  have linked := (rest.linked_iff top isOpen).mpr rfl
  obtain ⟨k, k', differ, first', second⟩ :=
    (decided.settled _ _ kept (rest.known kept)).2 isOpen
  rw [rest.common_iff_shared laid kept isOpen] at first' second
  exact ⟨k, k', differ, first'.of_linked linked, second.of_linked linked⟩

/-- A class ends with the kind that it holds, or with the only kind of its literals. -/
theorem classKind?_iff (laid : Laid first) (decided : Decided first s) :
    s.graph.classKind? h = some k ↔ first.Holds h k ∨ first.Sole h k := by
  have rest := decided.rest
  have found : ∀ {k}, s.graph.classKind? h = some k → first.Holds h k ∨ first.Sole h k := by
    intro k kind
    have kind' : first.graph.kind? (s.graph.root h) = some k := by
      rw [← rest.kinds]
      exact kind
    rcases rest.roots h with linked | ⟨k', kind'', sole⟩
    · exact .inl ⟨_, kind', linked⟩
    · rw [kind', Option.some.injEq] at kind''
      exact .inr (kind'' ▸ sole)
  refine ⟨found, ?_⟩
  rintro (⟨c, kind, linked⟩ | sole)
  · rw [← rest.kinds] at kind
    rw [classKind?, rest.closed h c linked, WellFormed.root_of_kind? kind, kind]
  · cases resolved : s.graph.classKind? h with
    | some k' =>
      rcases found resolved with holds | sole'
      · exact absurd holds (sole.1 k')
      · rw [sole.unique sole']
    | none =>
      -- a class that stays open has two kinds to choose from
      obtain ⟨l, hl, linked, some_kind⟩ := sole.exists_literal
      have isOpen : s.graph.classKind? l.handle = none := by
        rw [classKind?, rest.closed _ _ linked]
        exact resolved
      obtain ⟨k₁, k₂, differ, first', second⟩ := decided.shared_twice laid hl some_kind isOpen
      have only := (sole.of_linked linked).2
      exact absurd (((only k₁).mp first').trans ((only k₂).mp second).symm) differ

theorem root_eq_iff (laid : Laid first) (decided : Decided first s) {a b : Handle} :
    s.graph.root a = s.graph.root b ↔ first.Linked a b ∨
      ∃ k, (first.Holds a k ∨ first.Sole a k) ∧ (first.Holds b k ∨ first.Sole b k) := by
  have rest := decided.rest
  simp only [← decided.classKind?_iff laid]
  constructor
  · intro same
    cases resolved : s.graph.classKind? a with
    | some k =>
      refine .inr ⟨k, rfl, ?_⟩
      rw [classKind?, ← same]
      exact resolved
    | none =>
      have top := rest.consistent.forest.root_root a
      have up := (rest.linked_iff top resolved).mpr rfl
      have down := (rest.linked_iff top resolved).mpr same.symm
      exact .inl (up.trans down.symm)
  · rintro (linked | ⟨k, left, right⟩)
    · exact rest.closed a b linked
    · exact rest.consistent.forest.concrete_unique _ _ k left right

/-- The kind of a class can hold each literal of the class. -/
theorem admits_classKind (laid : Laid first) (decided : Decided first s) {l : TypedLiteral}
    (hl : l ∈ first.literals) (kind : s.graph.classKind? l.handle = some k) :
    k ∈ first.kinds l := by
  by_cases none : first.kinds l = []
  · rw [decided.refused l hl none] at kind
    cases kind
  · obtain ⟨bounds, kept⟩ := decided.exists_bounds hl none
    have common := (decided.settled _ _ kept (decided.rest.known kept)).1 k kind
    exact (decided.rest.common_iff laid kept).mp common l hl rfl none

theorem well_typed (laid : Laid first) (decided : Decided first s) :
    ¬(first.Conflict ∨ first.Misfit ∨ first.Disjoint ∨ first.Forced) := by
  have rest := decided.rest
  rintro (conflict | ⟨l, hl, k, holds, outside⟩ |
    ⟨h, unresolved, ⟨l, hl, linked, some_kind⟩, apart⟩ | ⟨l, hl, none, k, sole⟩)
  · exact rest.no_conflict conflict
  · have kind := (decided.classKind?_iff laid).mpr (.inl holds)
    exact outside (decided.admits_classKind laid hl kind)
  · cases resolved : s.graph.classKind? l.handle with
    | some k =>
      rcases (decided.classKind?_iff laid).mp resolved with holds | sole
      · exact unresolved k (holds.of_linked linked.symm)
      · exact apart k (((sole.2 k).mpr rfl).of_linked linked.symm)
    | none =>
      obtain ⟨k, _, _, shared, _⟩ := decided.shared_twice laid hl some_kind resolved
      exact apart k (shared.of_linked linked.symm)
  · have kind := (decided.classKind?_iff laid).mpr (.inr sole)
    rw [decided.refused l hl none] at kind
    cases kind

end Decided

theorem Verdict.ill_typed {s : Session} {e : TypeError} (verdict : s.Verdict e) :
    (s.Conflict ∨ s.Misfit ∨ s.Disjoint ∨ s.Forced) ∧
      (e.problem.code = ⟨.typ, 10⟩ ↔ s.Conflict) := by
  cases verdict with
  | clash code conflict => exact ⟨.inl conflict, iff_of_true code conflict⟩
  | unfit agreed mem holds outside _ =>
    exact ⟨.inr (.inl ⟨_, mem, _, holds, outside⟩),
      iff_of_false (by simp [TypeProblem.code]) agreed⟩
  | forced agreed mem none sole =>
    exact ⟨.inr (.inr (.inr ⟨_, mem, none, _, sole⟩)),
      iff_of_false (by simp [TypeProblem.code]) agreed⟩
  | disjoint agreed apart =>
    exact ⟨.inr (.inr (.inl apart)), iff_of_false (by simp [TypeProblem.code]) agreed⟩

/-- Before it is solved, a session keeps nothing that its solver must keep in order. -/
theorem Laid.consistent {s : Session} (laid : Laid s) : s.toSolver.Consistent where
  forest := laid.forest
  distinct := laid.pending ▸ Table.distinct_empty
  nonempty := by simp [laid.pending, Table.get?]
  bounds := by simp [Solver.bounds, laid.pending, Table.get?]
  literals e mem := by
    obtain ⟨l, hl, _, rfl⟩ := (laid.refused e).mp mem
    exact (laid.isVariable l hl).1

/-- Solving a session once is a run of its solver. -/
theorem solve_lift {s : Session} (unsolved : s.solved = false) {P : Nat → Solver → Prop}
    {Q : SolveFailure → Prop}
    (ends : Ends (SolverM.solve s.options.narrowing) s.toSolver P (fun e _ => Q e)) :
    Ends Session.solve s (fun count t => P count t.toSolver ∧ t.options = s.options ∧
      t.literals = s.literals ∧ t.solved = true) (fun e _ => Q e) := by
  unfold Ends at ends ⊢
  rw [solve_eq, unsolved]
  simp only [Bool.false_eq_true, if_false, onSolver]
  cases ran : SolverM.solve s.options.narrowing s.toSolver with
  | ok count t => simpa [ran] using ends
  | error e t => simpa [ran] using ends

/-- Solving a session decides it, or finds one of its mismatches. -/
theorem Laid.solve_ends {s : Session} (laid : Laid s) (on : s.options.narrowing = true) :
    Ends Session.solve s
      (fun _ t => Decided s t.toSolver ∧ t.options = s.options ∧ t.literals = s.literals ∧
        t.solved = true)
      (fun e _ => ∃ m, e = .mismatch m ∧ s.Verdict m) := by
  have con := laid.consistent
  refine solve_lift laid.unsolved ?_
  rw [on]
  refine (ConstFun.solve_ends true con).imp ?_ ?_
  · rintro count _ ⟨last, r, solved, _, _, rfl, passes⟩
    exact (decided_of_finished laid con passes).record _
  · rintro e t ⟨r, solved, passes⟩
    obtain ⟨m, rfl⟩ := passes.mismatch con laid.named rfl
    exact ⟨m, rfl, passes.sound laid con⟩

theorem reifyKind_eq {s : Session} (wf : s.graph.WellFormed) {h : Handle} (has : s.graph.Has h) :
    ∃ t, reifyKind h s = .ok (s.graph.classKind? h) t := by
  have same := wf.find_compresses h
  have read : (s.graph.find h).2.kindOf (s.graph.root h) = .ok (s.graph.classKind? h) := by
    rw [kindOf_eq (same.has_iff.mpr (wf.root_has has)), same.kind_eq]
    rfl
  refine ⟨{ s with graph := (s.graph.find h).2 }, ?_⟩
  unfold reifyKind
  simp only [Solver.reify]
  rw [show (s.graph.find h).1 = s.graph.root h from rfl, read]

/-- With narrowing, solving a session that was built of literals, variables, kinds and equalities
fails exactly if one of its classes is ill-typed. Otherwise a class gets the kind that it holds or
that its literals alone share, and no two classes are merged that do not get the same kind. -/
theorem Built.solve_decides {options : TypingOptions} {s : Session} (built : Built options s)
    (on : options.narrowing = true) :
    Ends Session.solve s
      (fun _ t => ¬(s.Conflict ∨ s.Misfit ∨ s.Disjoint ∨ s.Forced) ∧
        (∀ h, s.graph.Has h → ∃ kind t', reifyKind h t = .ok kind t' ∧
          ∀ k, kind = some k ↔ s.Holds h k ∨ s.Sole h k) ∧
        ∀ a b, (t.toSolver.reify a).1 = (t.toSolver.reify b).1 ↔ s.Linked a b ∨
          ∃ k, (s.Holds a k ∨ s.Sole a k) ∧ (s.Holds b k ∨ s.Sole b k))
      (fun e _ => ∃ m, e = .mismatch m ∧ (s.Conflict ∨ s.Misfit ∨ s.Disjoint ∨ s.Forced) ∧
        (m.problem.code = ⟨.typ, 10⟩ ↔ s.Conflict)) := by
  have laid := built.laid
  refine (laid.solve_ends (built.options_eq ▸ on)).imp ?_ ?_
  · rintro count t ⟨decided, _, _⟩
    have rest := decided.rest
    refine ⟨decided.well_typed laid, fun h has => ?_, fun a b => decided.root_eq_iff laid⟩
    obtain ⟨t', read⟩ := reifyKind_eq rest.consistent.forest ((decided.nodes h).mpr has)
    exact ⟨_, t', read, fun k => decided.classKind?_iff laid⟩
  · rintro e t ⟨m, rfl, verdict⟩
    exact ⟨m, rfl, verdict.ill_typed⟩

/-- A literal that only the widest unsigned kind can hold, and a small one in its class. -/
def wideClass : Session :=
  let s := after (Session.infer 0 ⟨"9300000000000000000", false, none, none⟩) (Session.new {})
  let s := after (Session.infer 1 ⟨"5", false, none, none⟩) s
  s.constrainEqual 0 2 none

theorem wideClass_built : Built {} wideClass :=
  .constrainEqual (.infer (.infer .new 0 _) 1 _) (by decide +kernel) (by decide +kernel) none

theorem solve_decides_wideClass :
    Built {} wideClass ∧ ∃ count t, Session.solve wideClass = .ok count t ∧
      ¬(wideClass.Conflict ∨ wideClass.Misfit ∨ wideClass.Disjoint ∨ wideClass.Forced) ∧
      wideClass.graph.Has 2 ∧ ∃ kind t', reifyKind 2 t = .ok kind t' ∧
        ∀ k, kind = some k ↔ wideClass.Holds 2 k ∨ wideClass.Sole 2 k := by
  have ends := wideClass_built.solve_decides rfl
  have normal : (match Session.solve wideClass with
      | .ok _ _ => true
      | .error _ _ => false) = true := by decide +kernel
  have has : wideClass.graph.Has 2 := by decide +kernel
  refine ⟨wideClass_built, ?_⟩
  cases ran : Session.solve wideClass with
  | error e t => simp [ran] at normal
  | ok count t =>
    simp only [Ends, ran] at ends
    exact ⟨count, t, rfl, ends.1, has, ends.2.1 2 has⟩

end Session

end ConstFun
