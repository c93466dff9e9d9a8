import ConstFun.Proofs.Fixpoint
import ConstFun.Proofs.Sessions

namespace ConstFun

open TypeGraph

namespace Solver

/-- The sides of an equality are in one class. The sides of a subtype constraint are in one resolved
class, or its left side is a variable where a bound of its color waits for its right side. -/
structure Meets (s : Solver) (c : Constraint) : Prop where
  names : c.Names s.graph
  equal : c.relation = .equal → s.graph.root c.left = s.graph.root c.right
  subtype : ∀ color, c.relation = .subtype color →
    s.graph.classKind? c.left ≠ none ∧ s.graph.root c.left = s.graph.root c.right ∨
      s.graph.kind? c.left = none ∧ ∃ b ∈ s.bounds (s.graph.root c.left),
        b.color = color ∧ s.graph.root b.right = s.graph.root c.right

end Solver

/-- A subtype constraint is owed: its sides are near each other in a resolved class, or a bound of
its color waits for a handle near its right side, or a constraint ahead stands for it. -/
inductive Point.Owes (p : Point) (c : Constraint) (color : Int) : Prop
  | joined (resolved : p.solver.graph.classKind? c.left ≠ none)
      (near : Relation.EqvGen p.Near c.left c.right) : Owes p c color
  | parked {b : PendingBound} (var : p.solver.graph.kind? c.left = none)
      (mem : b ∈ p.solver.bounds (p.solver.graph.root c.left)) (colored : b.color = color)
      (near : Relation.EqvGen p.Near b.right c.right) : Owes p c color
  | handedOn (c' : Constraint) (mem : c' ∈ p.ahead) (sub : c'.relation = .subtype color)
      (resolved : p.solver.graph.kind? c'.left ≠ none)
      (left : p.solver.graph.root c.left = c'.left)
      (right : p.solver.graph.root c.right = p.solver.graph.root c'.right) : Owes p c color

theorem Point.near_of_root {p : Point} {a b : Handle}
    (same : p.solver.graph.root a = p.solver.graph.root b) : Relation.EqvGen p.Near a b :=
  .rel _ _ (.inl same)

namespace Solves

variable {c : Constraint} {s t : Solver}

theorem root_of_resolved (wf : s.graph.WellFormed) (solved : Solves c s t) {h : Handle}
    (resolved : s.graph.classKind? h ≠ none) : t.graph.root h = s.graph.root h := by
  rcases solved.graph_cases wf with same | ⟨child, target, _, _, _, _, unresolved, merges⟩
  · exact same.root_eq h
  · have other : s.graph.root h ≠ child := by
      rintro rfl
      exact resolved unresolved
    rw [merges.root_eq, if_neg other]

theorem classKind_of_resolved (wf : s.graph.WellFormed) (solved : Solves c s t) {h : Handle}
    (resolved : s.graph.classKind? h ≠ none) : t.graph.classKind? h ≠ none := by
  unfold classKind? at *
  rwa [solved.root_of_resolved wf resolved, solved.kind_eq wf]

/-- A bound that waits at the class of a handle goes on waiting there. -/
theorem bound_kept (wf : s.graph.WellFormed) (solved : Solves c s t) {h : Handle} {b : PendingBound}
    (mem : b ∈ s.bounds (s.graph.root h)) :
    ∃ b' ∈ t.bounds (t.graph.root h), b'.color = b.color ∧
      t.graph.root b'.right = t.graph.root b.right := by
  have unmoved : Compresses s.graph t.graph → t.pending = s.pending →
      ∃ b' ∈ t.bounds (t.graph.root h), b'.color = b.color ∧
        t.graph.root b'.right = t.graph.root b.right := by
    intro same pending
    refine ⟨b, ?_, rfl, rfl⟩
    unfold Solver.bounds at mem ⊢
    rwa [same.root_eq, pending]
  cases solved with
  | equated _ _ _ same | lifted _ _ _ _ same | collapsed _ _ _ _ same | lowered _ _ _ _ same
  | joined _ _ _ same | deferred _ _ _ _ _ same => exact unmoved same rfl
  | agreed _ _ => exact unmoved (.refl wf) rfl
  | @parked color g j _ _ _ _ same =>
    refine ⟨b, ?_, rfl, rfl⟩
    change b ∈ ((s.withGraph g j).park _ _).bounds (g.root h)
    rw [Solver.bounds_park, same.root_eq]
    split
    next here =>
      rw [here] at mem
      exact List.mem_append.mpr (.inl mem)
    next => exact mem
  | @merged child target g j _ _ sides apart _ merges =>
    have top : s.graph.root target = target := by
      rcases sides with ⟨_, rfl⟩ | ⟨_, rfl, _⟩ <;> exact wf.root_root _
    have root : g.root h = if s.graph.root h = child then target else s.graph.root h := by
      rw [merges.root_eq, top]
    change ∃ b' ∈ Solver.bounds _ (g.root h), _
    by_cases moved : s.graph.root h = child
    · refine ⟨{ b with right := g.root b.right }, ?_, rfl, merges.wellFormed.root_root _⟩
      rw [root, if_pos moved, Solver.mem_bounds_rehomed apart rfl]
      exact .inr ⟨rfl, b, moved ▸ mem, rfl⟩
    · refine ⟨b, ?_, rfl, rfl⟩
      rw [root, if_neg moved, Solver.mem_bounds_rehomed apart rfl]
      exact .inl ⟨moved, mem⟩

section Steps

variable {cs done done' : List Constraint} {r : Nat} {color : Int}

theorem nearby (con : s.Consistent) (named : c.Names s.graph) (solved : Solves c s t) {a b : Handle}
    (near : Relation.EqvGen (Point.Near ⟨.solving (c :: cs), s, r, done⟩) a b) :
    Relation.EqvGen (Point.Near ⟨.solving cs, t, r, done'⟩) a b := by
  have step : Point.Near ⟨.solving (c :: cs), s, r, done⟩ ≤
      Relation.EqvGen (Point.Near ⟨.solving cs, t, r, done'⟩) := fun _ _ => solved.near con named
  exact Relation.EqvGen.eqvGen_le step _ _ near

/-- A constraint with a resolved left side stands for another one until it is solved; then the sides
are near each other, or it is handed on once more. -/
theorem owes_of_resolved (con : s.Consistent) (solved : Solves c s t)
    (sub : c.relation = .subtype color) (resolved : s.graph.kind? c.left ≠ none) {c' : Constraint}
    (left : s.graph.root c'.left = c.left) (right : s.graph.root c'.right = s.graph.root c.right) :
    Point.Owes ⟨.solving cs, t, r, done'⟩ c' color := by
  have wf := con.forest
  have open_class : s.graph.classKind? c'.left ≠ none := by rwa [classKind?, left]
  have known := solved.classKind_of_resolved wf open_class
  have root := (solved.root_of_resolved wf open_class).trans left
  have rights : t.graph.root c'.right = t.graph.root (s.graph.root c.right) :=
    solved.coarsens wf (right.trans (wf.root_root _).symm)
  cases solved with
  | equated _ var _ _ | parked _ var _ _ _ | lifted _ var _ _ _ => exact absurd var resolved
  | joined equal _ _ _ | merged equal _ _ _ _ _ | deferred equal _ _ _ _ _ => simp [sub] at equal
  | @collapsed _ k g j _ kind _ _ same =>
    -- the class of the right side is equated with the left side
    have edge : Point.Near ⟨.solving cs, (s.withGraph g j).constrainEqual (s.graph.root c.right)
        c.left c.origin, r, done'⟩ (s.graph.root c.right) c.left := by
      refine .inr ⟨⟨s.graph.root c.right, .equal, c.left, c.origin⟩, ?_, rfl, rfl, rfl⟩
      simp [Point.ahead, (Emits.equal g j _ _ _).worklist]
    have top : g.root c.left = c.left := by
      rw [same.root_eq, WellFormed.root_of_kind? kind]
    refine .joined known (.trans _ _ _ (Point.near_of_root (root.trans top.symm)) ?_)
    exact .trans _ _ _ (.symm _ _ (.rel _ _ edge)) (Point.near_of_root rights.symm)
  | @lowered color' k k' g j sub' kind _ _ same =>
    rw [sub, Relation.subtype.injEq] at sub'
    subst color'
    refine .handedOn ⟨c.left, .subtype color, s.graph.root c.right, c.origin⟩ ?_ rfl ?_ root rights
    · simp [Point.ahead, (Emits.subtype g j _ _ _ color).worklist]
    · change g.kind? c.left ≠ none
      rwa [same.kind_eq]
  | @agreed k j leftKind rightKind =>
    have same := wf.concrete_unique _ _ _ leftKind rightKind
    refine .joined known (Point.near_of_root (root.trans ?_))
    rw [rights, same]
    change c.right = s.graph.root (s.graph.root c.right)
    rw [wf.root_root, WellFormed.root_of_kind? rightKind]

theorem owes_kept (con : s.Consistent) (named : c.Names s.graph) (solved : Solves c s t)
    {c' : Constraint} (owes : Point.Owes ⟨.solving (c :: cs), s, r, done⟩ c' color) :
    Point.Owes ⟨.solving cs, t, r, done'⟩ c' color := by
  have wf := con.forest
  cases owes with
  | joined resolved near =>
    exact .joined (solved.classKind_of_resolved wf resolved) (solved.nearby con named near)
  | @parked b var mem colored near =>
    obtain ⟨b', mem', color', right⟩ := solved.bound_kept wf mem
    refine .parked ((solved.kind_eq wf _).trans var) mem' (color'.trans colored) ?_
    exact .trans _ _ _ (Point.near_of_root right) (solved.nearby con named near)
  | handedOn c₁ mem sub resolved left right =>
    rcases solved.ahead_kept con named mem with rfl | later
    · exact solved.owes_of_resolved con sub resolved left right
    · refine .handedOn c₁ later sub ?_ ?_ (solved.coarsens wf right)
      · change t.graph.kind? c₁.left ≠ none
        rwa [solved.kind_eq wf]
      · refine (solved.root_of_resolved wf ?_).trans left
        change s.graph.kind? (s.graph.root c'.left) ≠ none
        rw [show s.graph.root c'.left = c₁.left from left]
        exact resolved

theorem owes_solved (con : s.Consistent) (solved : Solves c s t)
    (sub : c.relation = .subtype color) : Point.Owes ⟨.solving cs, t, r, done'⟩ c color := by
  have wf := con.forest
  by_cases resolved : s.graph.kind? c.left = none
  · cases solved with
    | @equated color' earlier g j sub' _ found same =>
      rw [sub, Relation.subtype.injEq] at sub'
      subst color'
      have mem := List.mem_of_find?_eq_some found
      have colored : earlier.color = color := by simpa using List.find?_some found
      refine .parked ((same.kind_eq _).trans resolved) (b := earlier) ?_ colored ?_
      · change earlier ∈ s.bounds (g.root c.left)
        rwa [same.root_eq]
      · refine .rel _ _ (.inr ⟨⟨earlier.right, .equal, c.right, c.origin⟩, ?_, rfl, rfl, rfl⟩)
        simp [Point.ahead, (Emits.equal g j _ _ _).worklist]
    | @parked color' g j sub' _ _ _ same =>
      rw [sub, Relation.subtype.injEq] at sub'
      subst color'
      refine .parked ((same.kind_eq _).trans resolved) (b := ⟨color, c.right, c.left, c.origin⟩) ?_
        rfl (Point.near_of_root rfl)
      change _ ∈ ((s.withGraph g j).park _ _).bounds (g.root c.left)
      rw [Solver.bounds_park, same.root_eq, if_pos rfl]
      simp
    | @lifted color' k g j sub' _ _ kind same =>
      rw [sub, Relation.subtype.injEq] at sub'
      subst color'
      refine .handedOn ⟨s.graph.root c.left, .subtype color, c.right, c.origin⟩ ?_ rfl ?_
        (same.root_eq _) rfl
      · simp [Point.ahead, (Emits.subtype g j _ _ _ color).worklist]
      · change g.kind? (s.graph.root c.left) ≠ none
        rw [same.kind_eq, kind]
        simp
    | collapsed _ kind _ _ _ | lowered _ kind _ _ _ => simp [resolved] at kind
    | agreed kind _ => simp [resolved] at kind
    | joined equal _ _ _ | merged equal _ _ _ _ _ | deferred equal _ _ _ _ _ =>
      simp [sub] at equal
  · obtain ⟨k, kind⟩ := Option.ne_none_iff_exists'.mp resolved
    exact solved.owes_of_resolved con sub resolved (WellFormed.root_of_kind? kind) rfl

end Steps

end Solves

section Runs

variable {narrowing : Bool} {p q : Point}

/-- Nothing was solved: paths were compressed, and nothing was taken from what is ahead. -/
structure Point.Quiet (p q : Point) : Prop where
  solved : q.solved = p.solved
  same : Compresses p.solver.graph q.solver.graph
  pending : q.solver.pending = p.solver.pending
  ahead : ∀ c ∈ p.ahead, c ∈ q.ahead

theorem Point.Quiet.near (quiet : p.Quiet q) {a b : Handle} (near : Relation.EqvGen p.Near a b) :
    Relation.EqvGen q.Near a b := by
  have one : p.Near ≤ q.Near := by
    rintro a b (same | ⟨e, mem, edge⟩)
    · exact .inl (by rw [quiet.same.root_eq, quiet.same.root_eq, same])
    · exact .inr ⟨e, quiet.ahead e mem, edge⟩
  exact near.mono one a b

theorem Point.Quiet.owes (quiet : p.Quiet q) {c : Constraint} {color : Int}
    (owes : p.Owes c color) : q.Owes c color := by
  have same := quiet.same
  cases owes with
  | joined resolved path => exact .joined (by rwa [same.classKind_eq]) (quiet.near path)
  | parked var mem colored path =>
    refine .parked ((same.kind_eq _).trans var) ?_ colored (quiet.near path)
    unfold Solver.bounds at mem ⊢
    rwa [same.root_eq, quiet.pending]
  | handedOn c' mem sub resolved left right =>
    refine .handedOn c' (quiet.ahead _ mem) sub (by rwa [same.kind_eq])
      ((same.root_eq _).trans left) ?_
    rw [same.root_eq, same.root_eq, right]

/-- An act that does not fail solves a constraint, or it is quiet. -/
theorem Effect.solves_or_quiet (effect : Effect narrowing p q) (con : p.Consistent)
    (runs : ∀ e, q.stage ≠ .failed e) :
    (∃ s t r done cs c, Constraint.Names s.graph c ∧ Solves c s t ∧
      p = ⟨.solving (c :: cs), s, r, done⟩ ∧ q = ⟨.solving cs, t, r, done ++ [c]⟩) ∨
    p.Quiet q := by
  have wf := con.solver.forest
  cases effect with
  | solve named solved => exact .inl ⟨_, _, _, _, _, _, named, solved, rfl, rfl⟩
  | take _ =>
    exact .inr ⟨rfl, .refl wf, rfl, fun c mem => List.mem_append.mpr (.inl mem)⟩
  | review none_left _ | rest none_left _ =>
    refine .inr ⟨rfl, .refl wf, rfl, fun c mem => ?_⟩
    rw [Array.isEmpty_iff] at none_left
    simp [Point.ahead, none_left] at mem
  | clash _ _ _ | unknown _ | refuse _ _ | unsettled _ _ _ => exact absurd rfl (runs _)
  | again | checked => exact .inr ⟨rfl, .refl wf, rfl, fun c mem => mem⟩
  | check same _ => exact .inr ⟨rfl, same, rfl, fun c mem => mem⟩
  | settle kept settled =>
    refine .inr ⟨rfl, settled.compresses wf, settled.pending_eq, fun c mem => ?_⟩
    obtain ⟨new, emitted, _⟩ := settled.emits con.solver kept
    change c ∈ Array.toList _
    rw [emitted.worklist]
    exact List.mem_append.mpr (.inl mem)
  | @settled s r done emitted =>
    refine .inr ⟨rfl, .refl wf, rfl, fun c mem => ?_⟩
    cases emitted <;> exact mem

theorem Effect.runs (effect : Effect narrowing p q) (e : SolveFailure) : p.stage ≠ .failed e := by
  cases effect <;> simp

theorem Effect.coarsens (effect : Effect narrowing p q) (con : p.Consistent) {a b : Handle}
    (same : p.solver.graph.root a = p.solver.graph.root b) :
    q.solver.graph.root a = q.solver.graph.root b := by
  have wf := con.solver.forest
  have compress : Compresses p.solver.graph q.solver.graph →
      q.solver.graph.root a = q.solver.graph.root b := fun kept => by
    rw [kept.root_eq, kept.root_eq, same]
  cases effect with
  | solve _ solved => exact solved.coarsens wf same
  | check kept _ | refuse kept _ | unsettled _ _ kept => exact compress kept
  | settle _ settled => exact compress (settled.compresses wf)
  | take _ | review _ _ | rest _ _ | clash _ _ _ | unknown _ | again | checked | settled =>
    exact same

/-- The constraints solved in a run and some that were met before it name nodes, and the subtype
constraints among them are owed. -/
def Point.Obliged (before : List Constraint) (p : Point) : Prop :=
  ∀ c ∈ before ++ p.solved, c.Names p.solver.graph ∧
    ∀ color, c.relation = .subtype color → p.Owes c color

theorem Effect.obliged {before : List Constraint} (effect : Effect narrowing p q)
    (con : p.Consistent) (runs : ∀ e, q.stage ≠ .failed e) (obliged : p.Obliged before) :
    q.Obliged before := by
  have wf := con.solver.forest
  rcases effect.solves_or_quiet con runs with
    ⟨s, t, r, done, cs, c, named, solved, rfl, rfl⟩ | quiet
  · intro c' mem
    rw [← List.append_assoc] at mem
    rcases List.mem_append.mp mem with old | new
    · obtain ⟨names, owed⟩ := obliged c' old
      exact ⟨names.imp fun _ => (solved.has_iff wf).mpr,
        fun color sub => solved.owes_kept con.solver named (owed color sub)⟩
    · rw [List.mem_singleton.mp new]
      exact ⟨named.imp fun _ => (solved.has_iff wf).mpr,
        fun color sub => solved.owes_solved con.solver sub⟩
  · intro c mem
    rw [quiet.solved] at mem
    obtain ⟨names, owed⟩ := obliged c mem
    exact ⟨names.imp fun _ => quiet.same.has_iff.mpr, fun color sub => quiet.owes (owed color sub)⟩

end Runs

section Ends

variable {narrowing : Bool} {first last : Solver} {r : Nat} {solved before : List Constraint}

/-- A run that has not failed has solved a part of the constraints in the order of the log. -/
theorem Passes.in_order {p : Point} (passes : Passes narrowing (Point.start first) p)
    (con : first.Consistent) (runs : ∀ e, p.stage ≠ .failed e) :
    ∃ later, p.solver.store.log.toList = first.store.log.toList ++ later ∧
      p.solved ++ p.ahead = first.store.worklist.toList ++ later := by
  refine passes.induct (I := fun p => (∀ e, p.stage ≠ .failed e) → ∃ later,
    p.solver.store.log.toList = first.store.log.toList ++ later ∧
      p.solved ++ p.ahead = first.store.worklist.toList ++ later) con.start ?_ ?_ runs
  · exact fun _ => ⟨[], by simp [Point.start], by simp [Point.start, Point.ahead]⟩
  · intro p q con effect order runs
    obtain ⟨later, log, solved⟩ := order effect.runs
    obtain ⟨new, emitted, ahead, _⟩ := effect.emits con runs
    refine ⟨later ++ new, ?_, ?_⟩
    · rw [emitted, log, List.append_assoc]
    · rw [ahead, solved, List.append_assoc]

/-- A run that has not failed owes the constraints it has solved, and those that were met before. -/
theorem Passes.obliged {p : Point} (passes : Passes narrowing (Point.start first) p)
    (con : first.Consistent) (met : ∀ c ∈ before, first.Meets c)
    (runs : ∀ e, p.stage ≠ .failed e) : p.Obliged before := by
  have start : (Point.start first).Obliged before := by
    intro c mem
    rw [show (Point.start first).solved = [] from rfl, List.append_nil] at mem
    refine ⟨(met c mem).names, fun color sub => ?_⟩
    rcases (met c mem).subtype color sub with ⟨resolved, same⟩ | ⟨var, b, waits, colored, same⟩
    · exact .joined resolved (Point.near_of_root same)
    · exact .parked var waits colored (Point.near_of_root same)
  exact passes.induct (I := fun p => (∀ e, p.stage ≠ .failed e) → p.Obliged before) con.start
    (fun _ => start) (fun con effect owed runs => effect.obliged con runs (owed effect.runs)) runs

/-- When a run has finished, the log holds what was solved before it and in it. -/
theorem Passes.log_eq
    (passes : Passes narrowing (Point.start first) ⟨.finished, last, r, solved⟩)
    (con : first.Consistent)
    (log : before ++ first.store.worklist.toList = first.store.log.toList) :
    last.store.log.toList = before ++ solved := by
  obtain ⟨later, logged, order⟩ := passes.in_order con (by simp)
  have empty : last.store.worklist.toList = [] := passes.idle con
  calc last.store.log.toList
      = before ++ (first.store.worklist.toList ++ later) := by
        rw [show last.store.log.toList = _ from logged, ← log, List.append_assoc]
    _ = before ++ (solved ++ last.store.worklist.toList) := by rw [← order]; rfl
    _ = before ++ solved := by rw [empty, List.append_nil]

/-- A run that ends normally meets the constraints it has solved, and those that were met before. -/
theorem Passes.meets
    (passes : Passes narrowing (Point.start first) ⟨.finished, last, r, solved⟩)
    (con : first.Consistent) (met : ∀ c ∈ before, first.Meets c) :
    ∀ c ∈ before ++ solved, last.Meets c := by
  have obliged : Point.Obliged before ⟨.finished, last, r, solved⟩ :=
    passes.obliged con met (by simp)
  have nothing : Point.ahead ⟨.finished, last, r, solved⟩ = [] := passes.idle con
  intro c mem
  obtain ⟨names, owed⟩ := obliged c mem
  refine ⟨names, fun equal => ?_, fun color sub => ?_⟩
  · rcases List.mem_append.mp mem with old | new
    · exact passes.induct (I := fun p => p.solver.graph.root c.left = p.solver.graph.root c.right)
        con.start ((met c old).equal equal) fun con effect => effect.coarsens con
    · exact passes.covers con c new equal
  · cases owed color sub with
    | joined resolved near => exact .inl ⟨resolved, Point.root_eq_of_near nothing near⟩
    | parked var waits colored near =>
      exact .inr ⟨var, _, waits, colored, Point.root_eq_of_near nothing near⟩
    | handedOn _ ahead _ _ _ _ =>
      rw [nothing] at ahead
      cases ahead

end Ends

namespace Solver

/-- The constraints that are not waiting are met. -/
def Abides (s : Solver) : Prop :=
  ∃ before, before ++ s.store.worklist.toList = s.store.log.toList ∧ ∀ c ∈ before, s.Meets c

variable {s t : Solver} {narrowing : Bool} {count : Nat}

theorem Consistent.finished (con : s.Consistent) (ran : SolverM.solve narrowing s = .ok count t) :
    ∃ last r solved, t = last.record (fixpointEvent r count) ∧
      Passes narrowing (Point.start s) ⟨.finished, last, r, solved⟩ := by
  have ends := solve_ends narrowing con
  simp only [Ends, ran] at ends
  obtain ⟨last, r, solved, _, _, rfl, passes⟩ := ends
  exact ⟨last, r, solved, rfl, passes⟩

theorem Consistent.run (con : s.Consistent) (ran : SolverM.solve narrowing s = .ok count t) :
    t.Consistent := by
  obtain ⟨last, r, solved, rfl, passes⟩ := con.finished ran
  have ended := (passes.consistent con.start).solver
  exact ended.compress (.refl ended.forest) rfl rfl

theorem Meets.record {c : Constraint} (met : s.Meets c) (e : Event) : (s.record e).Meets c :=
  ⟨met.names, met.equal, met.subtype⟩

/-- When a run ends normally, nothing is waiting and every constraint of the log is met. -/
theorem Abides.run (abides : s.Abides) (con : s.Consistent)
    (ran : SolverM.solve narrowing s = .ok count t) :
    t.store.worklist.toList = [] ∧ ∀ c ∈ t.store.log.toList, t.Meets c := by
  obtain ⟨last, r, solved, rfl, passes⟩ := con.finished ran
  obtain ⟨before, log, met⟩ := abides
  refine ⟨passes.idle con, fun c mem => ?_⟩
  have mem' : c ∈ last.store.log.toList := mem
  rw [passes.log_eq con log] at mem'
  exact (passes.meets con met c mem').record _

theorem Consistent.settled (con : s.Consistent) (ran : SolverM.solve true s = .ok count t)
    (root : Handle) : Settled t.graph root (t.bounds root) := by
  obtain ⟨last, r, solved, rfl, passes⟩ := con.finished ran
  have reviewed := (passes.reviewed con rfl).2
  have distinct := (passes.consistent con.start).solver.distinct
  change Settled last.graph root (last.bounds root)
  rcases kept : last.pending.get? root with _ | bounds
  · have nothing : last.bounds root = [] := by simp [Solver.bounds, kept]
    rw [nothing]
    exact fun _ => ⟨by simp [Common], fun _ => ⟨.i8, .i16, by decide, by simp [Common]⟩⟩
  · rw [bounds_of_get? kept]
    exact reviewed (root, bounds) (distinct.mem_entries.mpr kept)

/-- Constraints were emitted and nodes added; the classes and the bounds are as they were. -/
structure Extends (s t : Solver) (new : List Constraint) : Prop where
  emits : Emits s t new
  pending : t.pending = s.pending
  has : ∀ {h}, s.graph.Has h → t.graph.Has h
  kind_eq : ∀ {h}, s.graph.Has h → t.graph.kind? h = s.graph.kind? h
  root_eq : ∀ h, t.graph.root h = s.graph.root h

theorem Extends.grow {new : List Constraint} (grown : Grows s.graph t.graph) (emits : Emits s t new)
    (pending : t.pending = s.pending) : Extends s t new :=
  ⟨emits, pending, grown.has, grown.kind_eq, grown.root_eq⟩

theorem Extends.constrain {new : List Constraint} (graph : t.graph = s.graph)
    (emits : Emits s t new) (pending : t.pending = s.pending) : Extends s t new := by
  refine ⟨emits, pending, ?_, ?_, ?_⟩ <;> simp [graph]

theorem Extends.meets (wf : s.graph.WellFormed) {new : List Constraint} (grown : Extends s t new)
    {c : Constraint} (met : s.Meets c) : t.Meets c where
  names := met.names.imp fun _ => grown.has
  equal isEqual := by
    rw [grown.root_eq, grown.root_eq]
    exact met.equal isEqual
  subtype color sub := by
    have kind := grown.kind_eq met.names.1
    have classKind : t.graph.classKind? c.left = s.graph.classKind? c.left := by
      unfold classKind?
      rw [grown.root_eq]
      exact grown.kind_eq (wf.root_has met.names.1)
    unfold bounds
    simp only [grown.root_eq, grown.pending, kind, classKind]
    exact met.subtype color sub

theorem Abides.extend (wf : s.graph.WellFormed) (abides : s.Abides) {new : List Constraint}
    (grown : Extends s t new) : t.Abides := by
  obtain ⟨before, log, met⟩ := abides
  refine ⟨before, ?_, fun c mem => grown.meets wf (met c mem)⟩
  rw [grown.emits.worklist, grown.emits.log, ← List.append_assoc, log]

end Solver

namespace Session

/-- One operation on a session, other than solving it. -/
inductive Operates : Session → Session → Prop
  | infer (s : Session) (key : Nat) (l : Literal) : Operates s (after (Session.infer key l) s)
  | newVariable (s : Session) : Operates s { s with toSolver := s.toSolver.newVariable.2 }
  | concrete (s : Session) (k : Kind) :
      Operates s { s with toSolver := (s.toSolver.concrete k).2 }
  | constrainEqual (s : Session) (left right : Handle) (origin : Option Span) :
      Operates s (s.constrainEqual left right origin)
  | constrainSubtype (s : Session) (left right : Handle) (origin : Option Span)
      (color : Option Int) : Operates s (s.constrainSubtype left right origin color)
  | freshColor (s : Session) : Operates s { s with store := s.store.freshColor.2 }
  | reify (s : Session) (h : Handle) : Operates s { s with toSolver := (s.toSolver.reify h).2 }

/-- The sessions that operations lead to, and solver runs that end normally. -/
inductive Steady (options : TypingOptions) : Session → Prop
  | new : Steady options (Session.new options)
  | operate {s t : Session} (steady : Steady options s) (op : Operates s t) : Steady options t
  | run {s t : Session} (steady : Steady options s) {narrowing : Bool} {count : Nat}
      (ran : onSolver (SolverM.solve narrowing) s = .ok count t) : Steady options t
  | solve {s t : Session} (steady : Steady options s) {count : Nat}
      (ran : Session.solve s = .ok count t) : Steady options t

theorem Operates.extends {s t : Session} (con : s.toSolver.Consistent) (op : Operates s t) :
    ∃ new, s.toSolver.Extends t.toSolver new := by
  have wf := con.forest
  cases op with
  | infer key l =>
    rcases infer_cases key l s with ⟨known, _, _, ran⟩ | ⟨e, _, ran⟩ | ⟨value, _, _, ran⟩
    · simp only [after, ran]
      exact ⟨[], .constrain rfl (.nothing rfl) rfl⟩
    · simp only [after, ran]
      exact ⟨[], .grow wf.newVariable_grows (.nothing rfl) rfl⟩
    · simp only [after, ran]
      obtain ⟨new, offers⟩ := Solver.offers_classify (s := s.toSolver.newVariable.2)
        wf.newVariable_grows.wellFormed (s.graph.size : Int) l.span
        (admissibleKinds s.options.exactUnsigned value)
      exact ⟨new, .grow (wf.newVariable_grows.trans offers.grows)
        ⟨offers.emits.log, offers.emits.worklist⟩ offers.pending⟩
  | newVariable => exact ⟨[], .grow wf.newVariable_grows (.nothing rfl) rfl⟩
  | concrete k => exact ⟨[], .grow (wf.concrete_grows k).1 (.nothing rfl) rfl⟩
  | constrainEqual left right origin =>
    exact ⟨_, .constrain rfl (.equal s.graph s.journal left right origin) rfl⟩
  | constrainSubtype left right origin color =>
    cases color with
    | none => exact ⟨_, .constrain rfl ⟨Array.toList_push .., Array.toList_push ..⟩ rfl⟩
    | some color =>
      exact ⟨_, .constrain rfl (.subtype s.graph s.journal left right origin color) rfl⟩
  | freshColor => exact ⟨[], .constrain rfl ⟨by simp [ConstraintStore.freshColor],
      by simp [ConstraintStore.freshColor]⟩ rfl⟩
  | reify h =>
    have same := wf.find_compresses h
    exact ⟨[], .nothing rfl, rfl, same.has_iff.mpr, fun _ => same.kind_eq _, same.root_eq⟩

theorem Driven.operate {options : TypingOptions} {n : Nat} {s t : Session}
    (driven : Driven options n s) (op : Operates s t) : Driven options n t := by
  cases op with
  | infer key l => exact driven.infer key l
  | newVariable => exact driven.newVariable
  | concrete k => exact driven.concrete k
  | constrainEqual left right origin => exact driven.constrainEqual left right origin
  | constrainSubtype left right origin color =>
    exact driven.constrainSubtype left right origin color
  | freshColor => exact driven.freshColor
  | reify h => exact driven.reify h

theorem onSolver_of_ok {narrowing : Bool} {s t : Session} {count : Nat}
    (ran : onSolver (SolverM.solve narrowing) s = .ok count t) :
    SolverM.solve narrowing s.toSolver = .ok count t.toSolver := by
  unfold onSolver at ran
  split at ran
  next found =>
    cases ran
    exact found
  next => cases ran

theorem solve_of_ok {s t : Session} {count : Nat} (ran : Session.solve s = .ok count t) :
    SolverM.solve s.options.narrowing s.toSolver = .ok count t.toSolver := by
  rw [solve_eq] at ran
  split at ran
  next => cases ran
  next => exact onSolver_of_ok (s := { s with solved := true }) ran

namespace Steady

variable {options : TypingOptions} {s : Session}

theorem driven (steady : Steady options s) : ∃ n, Driven options n s := by
  induction steady with
  | new => exact ⟨0, .new⟩
  | operate _ op ih =>
    obtain ⟨n, driven⟩ := ih
    exact ⟨n, driven.operate op⟩
  | @run s t _ narrowing count ran ih =>
    obtain ⟨n, driven⟩ := ih
    have next := driven.run narrowing
    simp only [after, ran] at next
    exact ⟨_, next⟩
  | @solve s t _ count ran ih =>
    obtain ⟨n, driven⟩ := ih
    have next := driven.solve
    simp only [after, ran] at next
    exact ⟨_, next⟩

theorem consistent (steady : Steady options s) : s.toSolver.Consistent := by
  obtain ⟨n, driven⟩ := steady.driven
  exact driven.wellKept.consistent

/-- What holds of a new session and is kept by operations and by runs that end normally holds of
every steady session. -/
theorem induct {I : Solver → Prop} (steady : Steady options s)
    (new : I (Session.new options).toSolver)
    (extend : ∀ {s t : Solver} {new : List Constraint}, s.Consistent → I s → s.Extends t new → I t)
    (run : ∀ {narrowing : Bool} {count : Nat} {s t : Solver}, s.Consistent → I s →
      SolverM.solve narrowing s = .ok count t → I t) : I s.toSolver := by
  induction steady with
  | new => exact new
  | operate steady op ih =>
    obtain ⟨new, grown⟩ := op.extends steady.consistent
    exact extend steady.consistent ih grown
  | run steady ran ih => exact run steady.consistent ih (onSolver_of_ok ran)
  | solve steady ran ih => exact run steady.consistent ih (solve_of_ok ran)

theorem abides (steady : Steady options s) : s.toSolver.Abides := by
  refine steady.induct ⟨[], rfl, by simp⟩ (fun con abides => abides.extend con.forest) ?_
  intro narrowing count s t con abides ran
  obtain ⟨empty, met⟩ := abides.run con ran
  exact ⟨t.store.log.toList, by rw [empty, List.append_nil], met⟩

/-- When a run ends normally, no subtype constraint of the log is lost: a concrete left side is the
class of the right side; a variable on the left is in a resolved class with the right side, or a
bound of the color waits at its root for the class of the right side. With narrowing, a class whose
bounds are all resolved has a kind that each source of its bounds allows, or is open with two such
kinds at least. -/
theorem subtypes_kept (steady : Steady options s) {narrowing : Bool} {count : Nat} {t : Solver}
    (ran : SolverM.solve narrowing s.toSolver = .ok count t) :
    (∀ c ∈ t.store.log.toList, ∀ color, c.relation = .subtype color →
      (∃ k, t.graph.kindOf c.left = .ok (some k)) ∧ (t.graph.find c.right).1 = c.left ∨
      t.graph.kindOf c.left = .ok none ∧
        ((t.graph.find c.left).1 = (t.graph.find c.right).1 ∧
            (∃ k, t.graph.kindOf (t.graph.find c.left).1 = .ok (some k)) ∨
          ∃ b ∈ t.bounds (t.graph.find c.left).1,
            b.color = color ∧ (t.graph.find b.right).1 = (t.graph.find c.right).1)) ∧
    (narrowing = true → ∀ root,
      (∀ b ∈ t.bounds root, ∃ k, t.graph.kindOf (t.graph.find b.right).1 = .ok (some k)) →
      (∀ k, t.graph.kindOf root = .ok (some k) →
        ∀ b ∈ t.bounds root, k ∈ kindsOf t.graph (t.bounds root) b.source) ∧
      (t.graph.kindOf root = .ok none → ∃ k k', k ≠ k' ∧ ∀ b ∈ t.bounds root,
        k ∈ kindsOf t.graph (t.bounds root) b.source ∧
          k' ∈ kindsOf t.graph (t.bounds root) b.source)) := by
  have con := steady.consistent
  have wf := (con.run ran).forest
  obtain ⟨-, met⟩ := steady.abides.run con ran
  refine ⟨fun c mem color sub => ?_, ?_⟩
  · obtain ⟨⟨hasLeft, _⟩, _, obligation⟩ := met c mem
    rcases kind : t.graph.kind? c.left with _ | k
    · refine .inr ⟨by rw [kindOf_eq hasLeft, kind], ?_⟩
      rcases obligation color sub with ⟨resolved, same⟩ | ⟨_, waits⟩
      · obtain ⟨k, isKind⟩ := Option.ne_none_iff_exists'.mp resolved
        exact .inl ⟨same, k, (kindOf_eq (wf.root_has hasLeft)).trans (congrArg _ isKind)⟩
      · exact .inr waits
    · refine .inl ⟨⟨k, by rw [kindOf_eq hasLeft, kind]⟩, ?_⟩
      rcases obligation color sub with ⟨_, same⟩ | ⟨var, _⟩
      · exact same.symm.trans (WellFormed.root_of_kind? kind)
      · rw [kind] at var
        cases var
  · rintro rfl root resolved
    have known : Known t.graph (t.bounds root) := fun b mem none => by
      obtain ⟨k, kind⟩ := resolved b mem
      rw [show t.graph.classKind? b.right = some k from kind?_of_kindOf kind] at none
      cases none
    obtain ⟨fits, choices⟩ := con.settled ran root known
    refine ⟨fun k kind b mem => mem_kindsOf.mpr (fits k (kind?_of_kindOf kind) b mem),
      fun kind => ?_⟩
    obtain ⟨k, k', differ, first, second⟩ := choices (kind?_of_kindOf kind)
    exact ⟨k, k', differ, fun b mem =>
      ⟨mem_kindsOf.mpr (first b mem), mem_kindsOf.mpr (second b mem)⟩⟩

end Steady

/-- A variable has a bound at another one, which is resolved later, and moves to a third one. -/
def movedBound : Session :=
  let s := { Session.new {} with toSolver := (Session.new {}).toSolver.newVariable.2 }
  let s := { s with toSolver := s.toSolver.newVariable.2 }
  let s := { s with toSolver := s.toSolver.newVariable.2 }
  let s := { s with toSolver := (s.toSolver.concrete .i32).2 }
  let s := s.constrainSubtype 0 1 none (some 7)
  let s := s.constrainEqual 1 3 none
  s.constrainEqual 0 2 none

theorem movedBound_steady : Steady {} movedBound := by
  have empty : Steady {} (Session.new {}) := .new
  have nodes := ((empty.operate (.newVariable _)).operate (.newVariable _)).operate (.newVariable _)
  exact (((nodes.operate (.concrete _ .i32)).operate
    (.constrainSubtype _ 0 1 none (some 7))).operate
    (.constrainEqual _ 1 3 none)).operate (.constrainEqual _ 0 2 none)

/-- A literal that several kinds can hold. -/
def openLiteral : Session := after (Session.infer 0 { text := "300" }) (Session.new {})

theorem subtypes_kept_movedBound :
    (∀ narrowing, ∃ count t, SolverM.solve narrowing movedBound.toSolver = .ok count t ∧
      (∃ c ∈ t.store.log.toList, c.relation = .subtype 7 ∧
        ((∃ k, t.graph.kindOf c.left = .ok (some k)) ∧ (t.graph.find c.right).1 = c.left ∨
        t.graph.kindOf c.left = .ok none ∧
          ((t.graph.find c.left).1 = (t.graph.find c.right).1 ∧
              (∃ k, t.graph.kindOf (t.graph.find c.left).1 = .ok (some k)) ∨
            ∃ b ∈ t.bounds (t.graph.find c.left).1,
              b.color = 7 ∧ (t.graph.find b.right).1 = (t.graph.find c.right).1)))) ∧
    ∃ count t, SolverM.solve true openLiteral.toSolver = .ok count t ∧
      (t.bounds 0).length = 8 ∧ ∃ k k', k ≠ k' ∧ ∀ b ∈ t.bounds 0,
        k ∈ kindsOf t.graph (t.bounds 0) b.source ∧
          k' ∈ kindsOf t.graph (t.bounds 0) b.source := by
  refine ⟨fun narrowing => ?_, ?_⟩
  · have logged : (match SolverM.solve narrowing movedBound.toSolver with
        | .ok _ t => t.store.log.toList.any fun c => c.relation = .subtype 7
        | .error _ _ => false) = true := by
      cases narrowing <;> decide +kernel
    cases ran : SolverM.solve narrowing movedBound.toSolver with
    | error e t => simp [ran] at logged
    | ok count t =>
      simp only [ran, List.any_eq_true, decide_eq_true_eq] at logged
      obtain ⟨c, mem, sub⟩ := logged
      exact ⟨count, t, rfl, c, mem, sub, (movedBound_steady.subtypes_kept ran).1 c mem 7 sub⟩
  · have narrowed : (match SolverM.solve true openLiteral.toSolver with
        | .ok _ t => decide ((t.bounds 0).length = 8) &&
          decide ((t.graph.kindOf 0).toOption = some none) &&
          (t.bounds 0).all fun b =>
            ((t.graph.kindOf (t.graph.find b.right).1).toOption.bind id).isSome
        | .error _ _ => false) = true := by decide +kernel
    cases ran : SolverM.solve true openLiteral.toSolver with
    | error e t => simp [ran] at narrowed
    | ok count t =>
      simp only [ran, Bool.and_eq_true, decide_eq_true_eq, List.all_eq_true] at narrowed
      obtain ⟨⟨count', kind⟩, resolved⟩ := narrowed
      have steady : Steady {} openLiteral := Steady.new.operate (.infer _ 0 _)
      refine ⟨count, t, rfl, count', ?_⟩
      refine ((steady.subtypes_kept ran).2 rfl 0 fun b mem => ?_).2 ?_
      · cases found : t.graph.kindOf (t.graph.find b.right).1 with
        | error f => simpa [found, Except.toOption] using resolved b mem
        | ok k => cases k with
          | none => simpa [found, Except.toOption] using resolved b mem
          | some k => exact ⟨k, rfl⟩
      · cases found : t.graph.kindOf 0 with
        | error f => simp [found, Except.toOption] at kind
        | ok k => simpa [found, Except.toOption] using kind

end Session

end ConstFun
