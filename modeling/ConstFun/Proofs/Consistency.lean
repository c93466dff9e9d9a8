import ConstFun.Proofs.Points

namespace ConstFun

open TypeGraph

/-- The graph is a forest, no root of the pending table has an empty list, every bound waits at the
root of its source, and what the solver refers to are nodes. -/
structure Solver.Consistent (s : Solver) : Prop where
  forest : s.graph.WellFormed
  distinct : s.pending.Distinct
  nonempty : ∀ r bs, s.pending.get? r = some bs → bs ≠ []
  bounds : ∀ r b, b ∈ s.bounds r → s.graph.Has b.right ∧ s.graph.Has b.source ∧
    s.graph.root b.source = r
  literals : ∀ l ∈ s.unrepresentable.entries, s.graph.Has l.1

namespace Solver

theorem bounds_of_get? {s : Solver} {r : Handle} {bs : List PendingBound}
    (kept : s.pending.get? r = some bs) : s.bounds r = bs := by
  simp [bounds, kept]

theorem bounds_park (s : Solver) (root r : Handle) (b : PendingBound) :
    (s.park root b).bounds r = if r = root then s.bounds root ++ [b] else s.bounds r := by
  unfold bounds park
  rw [Table.get?_addAll]
  split <;> rfl

theorem mem_bounds_rehomed {s t : Solver} {child target r : Handle} {g : TypeGraph}
    {b : PendingBound} (apart : child ≠ target) (table : t.pending = s.rehomed child target g) :
    b ∈ t.bounds r ↔ r ≠ child ∧ b ∈ s.bounds r ∨
      r = target ∧ ∃ b₀ ∈ s.bounds child, b = { b₀ with right := g.root b₀.right } := by
  unfold bounds at *
  rw [table]
  unfold rehomed bounds
  cases listed : (s.pending.get? child).getD [] with
  | nil =>
    simp only [List.isEmpty_nil, if_true, Table.get?_erase]
    by_cases hr : r = child <;> simp [hr]
  | cons b₀ bs =>
    simp only [List.isEmpty_cons, Bool.false_eq_true, if_false, Table.get?_addAll,
      Table.get?_erase, if_neg apart.symm]
    by_cases hr : r = target
    · subst r
      simp [apart.symm, eq_comm]
    · by_cases hc : r = child
      · simp [hc, apart]
      · simp [hr, hc]

theorem rehomed_nonempty {s : Solver} {child target : Handle} {g : TypeGraph}
    (nonempty : ∀ r bs, s.pending.get? r = some bs → bs ≠ []) {r : Handle}
    {bs : List PendingBound} (kept : (s.rehomed child target g).get? r = some bs) : bs ≠ [] := by
  unfold rehomed at kept
  split at kept
  next =>
    rw [Table.get?_erase] at kept
    split at kept
    next => cases kept
    next => exact nonempty r bs kept
  next some_left =>
    rw [Table.get?_addAll] at kept
    split at kept
    next =>
      cases kept
      intro empty
      rw [List.append_eq_nil_iff, List.map_eq_nil_iff] at empty
      simp [empty.2] at some_left
    next =>
      rw [Table.get?_erase] at kept
      split at kept
      next => cases kept
      next => exact nonempty r bs kept

namespace Consistent

variable {s t : Solver}

theorem key_root (con : s.Consistent) {r : Handle} {bs : List PendingBound}
    (kept : s.pending.get? r = some bs) : s.graph.Has r ∧ s.graph.parent? r = none := by
  obtain ⟨b, mem⟩ := List.exists_mem_of_ne_nil bs (con.nonempty r bs kept)
  rw [← bounds_of_get? kept] at mem
  obtain ⟨_, has, same⟩ := con.bounds r b mem
  rw [← same]
  exact ⟨con.forest.root_has has, con.forest.parent?_root _⟩

/-- Whatever keeps the nodes, the roots and the tables keeps the invariant. -/
theorem keep (con : s.Consistent) (wf : t.graph.WellFormed)
    (has : ∀ h, s.graph.Has h → t.graph.Has h) (roots : ∀ h, t.graph.root h = s.graph.root h)
    (pending : t.pending = s.pending) (literals : t.unrepresentable = s.unrepresentable) :
    t.Consistent where
  forest := wf
  distinct := by
    rw [pending]
    exact con.distinct
  nonempty := by
    rw [pending]
    exact con.nonempty
  bounds r b mem := by
    unfold Solver.bounds at mem
    rw [pending] at mem
    obtain ⟨right, source, same⟩ := con.bounds r b mem
    exact ⟨has _ right, has _ source, (roots _).trans same⟩
  literals l mem := by
    rw [literals] at mem
    exact has _ (con.literals l mem)

theorem compress (con : s.Consistent) (same : Compresses s.graph t.graph)
    (pending : t.pending = s.pending) (literals : t.unrepresentable = s.unrepresentable) :
    t.Consistent :=
  con.keep same.wellFormed (fun _ => same.has_iff.mpr) same.root_eq pending literals

theorem park (con : s.Consistent) {h : Handle} {b : PendingBound} (right : s.graph.Has b.right)
    (source : s.graph.Has b.source) (same : s.graph.root b.source = h) :
    (s.park h b).Consistent where
  forest := con.forest
  distinct := con.distinct.addAll _ _
  nonempty r bs kept := by
    rw [Solver.park, Table.get?_addAll] at kept
    split at kept
    next =>
      cases kept
      simp
    next => exact con.nonempty r bs kept
  bounds r b' mem := by
    rw [bounds_park] at mem
    split at mem
    next eq =>
      subst r
      rcases List.mem_append.mp mem with mem | mem
      · exact con.bounds _ b' mem
      · rw [List.mem_singleton.mp mem]
        exact ⟨right, source, same⟩
    next => exact con.bounds r b' mem
  literals := con.literals

/-- Merging an open root moves its bounds to the root they now belong to. -/
theorem merge (con : s.Consistent) {child target : Handle} (top : s.graph.root target = target)
    (apart : child ≠ target) (merges : Merges s.graph child target t.graph)
    (pending : t.pending = s.rehomed child target t.graph)
    (literals : t.unrepresentable = s.unrepresentable) : t.Consistent where
  forest := merges.wellFormed
  distinct := by
    rw [pending, rehomed]
    split
    next => exact con.distinct.erase _
    next => exact (con.distinct.erase _).addAll _ _
  nonempty r bs kept := by
    rw [pending] at kept
    exact rehomed_nonempty con.nonempty kept
  bounds r b mem := by
    rcases (mem_bounds_rehomed apart pending).mp mem with ⟨other, mem⟩ | ⟨rfl, b₀, mem₀, rfl⟩
    · obtain ⟨right, source, same⟩ := con.bounds r b mem
      refine ⟨merges.has_iff.mpr right, merges.has_iff.mpr source, ?_⟩
      rw [merges.root_eq, same, if_neg other]
    · obtain ⟨right, source, same⟩ := con.bounds child b₀ mem₀
      refine ⟨merges.wellFormed.root_has (merges.has_iff.mpr right), merges.has_iff.mpr source, ?_⟩
      rw [merges.root_eq, same, if_pos rfl, top]
  literals l mem := by
    rw [literals] at mem
    exact merges.has_iff.mpr (con.literals l mem)

theorem solves (con : s.Consistent) {c : Constraint} (hl : s.graph.Has c.left)
    (hr : s.graph.Has c.right) (solved : Solves c s t) : t.Consistent := by
  have wf := con.forest
  cases solved with
  | equated _ _ _ same => exact con.compress same rfl rfl
  | @parked color g j _ _ _ _ same =>
    have before : (s.withGraph g j).Consistent := con.compress same rfl rfl
    exact before.park (same.has_iff.mpr hr) (same.has_iff.mpr hl) (same.root_eq _)
  | lifted _ _ _ _ same => exact con.compress same rfl rfl
  | collapsed _ _ _ _ same => exact con.compress same rfl rfl
  | lowered _ _ _ _ same => exact con.compress same rfl rfl
  | agreed _ _ => exact con.compress (.refl wf) rfl rfl
  | joined _ _ _ same => exact con.compress same rfl rfl
  | merged _ _ sides apart _ merges =>
    refine con.merge ?_ apart merges rfl rfl
    rcases sides with ⟨-, rfl⟩ | ⟨-, rfl, -⟩ <;> exact wf.root_root _
  | deferred _ _ _ _ _ same => exact con.compress same rfl rfl

end Consistent

end Solver

theorem Settles.compresses {root : Handle} {bounds : List PendingBound} {s t : Solver}
    {emitted : Bool} (wf : s.graph.WellFormed) (settled : Settles root bounds s emitted t) :
    Compresses s.graph t.graph := by
  cases settled with
  | skipped _ => exact .refl wf
  | waiting _ same | fitting _ _ _ same | ambiguous _ _ _ _ _ same | narrowed _ _ _ _ _ same =>
    exact same

theorem Settles.pending_eq {root : Handle} {bounds : List PendingBound} {s t : Solver}
    {emitted : Bool} (settled : Settles root bounds s emitted t) : t.pending = s.pending := by
  cases settled <;> rfl

theorem Solver.Consistent.settles {s t : Solver} (con : s.Consistent) {root : Handle}
    {bounds : List PendingBound} {emitted : Bool} (settled : Settles root bounds s emitted t) :
    t.Consistent := by
  refine con.compress (settled.compresses con.forest) settled.pending_eq ?_
  cases settled <;> rfl

/-- Both sides of a constraint are nodes. -/
def Constraint.Names (g : TypeGraph) (c : Constraint) : Prop := g.Has c.left ∧ g.Has c.right

instance (g : TypeGraph) (c : Constraint) : Decidable (c.Names g) :=
  inferInstanceAs (Decidable (_ ∧ _))

/-- The invariant at a point: what is left to check or to settle is what the solver keeps. -/
structure Point.Consistent (p : Point) : Prop where
  solver : p.solver.Consistent
  literals : ∀ ls, p.stage = .checking ls → ∀ l ∈ ls, p.solver.graph.Has l.1
  classes : ∀ es emitted, p.stage = .settling es emitted →
    ∀ e ∈ es, p.solver.pending.get? e.1 = some e.2

/-- What an act does at a point where the invariant holds. -/
inductive Effect (narrowing : Bool) : Point → Point → Prop
  | take {s : Solver} {r : Nat} {done : List Constraint}
      (some_left : s.store.worklist.isEmpty = false) :
      Effect narrowing ⟨.draining, s, r, done⟩
        ⟨.solving s.store.worklist.toList,
          s.drained.record (Solver.roundEvent r s.store.worklist.size), r + 1, done⟩
  | review {s : Solver} {r : Nat} {done : List Constraint}
      (none_left : s.store.worklist.isEmpty = true) (on : narrowing = true) :
      Effect narrowing ⟨.draining, s, r, done⟩
        ⟨.checking s.unrepresentable.entries, s.drained, r, done⟩
  | rest {s : Solver} {r : Nat} {done : List Constraint}
      (none_left : s.store.worklist.isEmpty = true) (off : narrowing = false) :
      Effect narrowing ⟨.draining, s, r, done⟩ ⟨.finished, s.drained, r, done⟩
  | solve {s t : Solver} {r : Nat} {done cs : List Constraint} {c : Constraint}
      (named : c.Names s.graph) (solved : Solves c s t) :
      Effect narrowing ⟨.solving (c :: cs), s, r, done⟩ ⟨.solving cs, t, r, done ++ [c]⟩
  | clash {s : Solver} {r : Nat} {done cs : List Constraint} {c : Constraint} {k k' : Kind}
      {j : Array Event} (differ : k ≠ k') (left : s.graph.kind? c.left = some k)
      (right : s.graph.kind? c.right = some k') :
      Effect narrowing ⟨.solving (c :: cs), s, r, done⟩
        ⟨.failed (.mismatch ⟨c.clash k k', c.origin⟩), s.withGraph s.graph j, r, done⟩
  | unknown {s : Solver} {r : Nat} {done cs : List Constraint} {c : Constraint} {f : Fault}
      (unnamed : ¬c.Names s.graph) :
      Effect narrowing ⟨.solving (c :: cs), s, r, done⟩ ⟨.failed (.fault f), s, r, done⟩
  | again {s : Solver} {r : Nat} {done : List Constraint} :
      Effect narrowing ⟨.solving [], s, r, done⟩ ⟨.draining, s, r, done⟩
  | check {s : Solver} {r : Nat} {done : List Constraint} {literal : Handle}
      {origin : Option Span} {ls : List (Handle × Option Span)} {g : TypeGraph}
      (same : Compresses s.graph g) (unresolved : s.graph.classKind? literal = none) :
      Effect narrowing ⟨.checking ((literal, origin) :: ls), s, r, done⟩
        ⟨.checking ls, s.withGraph g s.journal, r, done⟩
  | refuse {s : Solver} {r : Nat} {done : List Constraint} {literal : Handle}
      {origin : Option Span} {ls : List (Handle × Option Span)} {g : TypeGraph} {k : Kind}
      (same : Compresses s.graph g) (resolved : s.graph.classKind? literal = some k) :
      Effect narrowing ⟨.checking ((literal, origin) :: ls), s, r, done⟩
        ⟨.failed (.mismatch ⟨.unfit k, origin⟩), s.withGraph g s.journal, r, done⟩
  | checked {s : Solver} {r : Nat} {done : List Constraint} :
      Effect narrowing ⟨.checking [], s, r, done⟩ ⟨.settling s.pending.entries false, s, r, done⟩
  | settle {s t : Solver} {r : Nat} {done : List Constraint} {root : Handle}
      {bounds : List PendingBound} {es : List (Handle × List PendingBound)} {before now : Bool}
      (kept : s.pending.get? root = some bounds) (settled : Settles root bounds s now t) :
      Effect narrowing ⟨.settling ((root, bounds) :: es) before, s, r, done⟩
        ⟨.settling es (now || before), t, r, done⟩
  | unsettled {s : Solver} {r : Nat} {done : List Constraint} {root : Handle}
      {bounds : List PendingBound} {es : List (Handle × List PendingBound)} {before : Bool}
      {g : TypeGraph} {e : TypeError} (kept : s.pending.get? root = some bounds)
      (misfit : Misfits root bounds s e) (same : Compresses s.graph g) :
      Effect narrowing ⟨.settling ((root, bounds) :: es) before, s, r, done⟩
        ⟨.failed (.mismatch e), s.withGraph g s.journal, r, done⟩
  | settled {s : Solver} {r : Nat} {done : List Constraint} {emitted : Bool} :
      Effect narrowing ⟨.settling [] emitted, s, r, done⟩
        ⟨if emitted then .draining else .finished, s, r, done⟩

section Inversion

variable {s : Solver} (narrowing : Bool) (r : Nat) (done : List Constraint)

theorem Solver.Consistent.step_effect (con : s.Consistent) (c : Constraint)
    (cs : List Constraint) :
    Ends (SolverM.step c) s
      (fun _ t => Effect narrowing ⟨.solving (c :: cs), s, r, done⟩
        ⟨.solving cs, t, r, done ++ [c]⟩)
      (fun e t => Effect narrowing ⟨.solving (c :: cs), s, r, done⟩ ⟨.failed e, t, r, done⟩) := by
  unfold Ends
  by_cases named : c.Names s.graph
  · rcases SolverM.step_cases con.forest named.1 named.2 with
      ⟨t, ran, solved⟩ | ⟨k, k', j, differ, left, right, ran⟩
    · rw [ran]
      exact .solve named solved
    · rw [ran]
      exact .clash differ left right
  · obtain ⟨f, ran⟩ := SolverM.step_unknown named
    rw [ran]
    exact .unknown named

theorem Solver.Consistent.check_effect (con : s.Consistent) {literal : Handle}
    (has : s.graph.Has literal) (origin : Option Span) (ls : List (Handle × Option Span)) :
    Ends (SolverM.checkUnrepresentable literal origin) s
      (fun _ t => Effect narrowing ⟨.checking ((literal, origin) :: ls), s, r, done⟩
        ⟨.checking ls, t, r, done⟩)
      (fun e t => Effect narrowing ⟨.checking ((literal, origin) :: ls), s, r, done⟩
        ⟨.failed e, t, r, done⟩) := by
  unfold Ends
  obtain ⟨g, same, ⟨unresolved, ran⟩ | ⟨k, resolved, ran⟩⟩ :=
    SolverM.checkUnrepresentable_cases con.forest has origin
  · rw [ran]
    exact .check same unresolved
  · rw [ran]
    exact .refuse same resolved

theorem Solver.Consistent.narrowClass_ends (con : s.Consistent) {root : Handle}
    {bounds : List PendingBound} (kept : s.pending.get? root = some bounds) :
    Ends (SolverM.narrowClass root bounds) s (fun now t => Settles root bounds s now t)
      (fun e t => ∃ m g, Misfits root bounds s m ∧ Compresses s.graph g ∧ e = .mismatch m ∧
        t = s.withGraph g s.journal) := by
  have has : ∀ b ∈ bounds, s.graph.Has b.right := by
    intro b mem
    rw [← Solver.bounds_of_get? kept] at mem
    exact (con.bounds root b mem).1
  unfold Ends
  rcases SolverM.narrowClass_cases con.forest (con.key_root kept).1 (con.nonempty root bounds kept)
      has with
    ⟨now, t, ran, settled⟩ | ⟨e, g, same, misfit, ran⟩
  · rw [ran]
    exact settled
  · rw [ran]
    exact ⟨e, g, misfit, same, rfl, rfl⟩

/-- The one place where the acts are opened; invariants are drawn from their effects. -/
theorem Acts.effect {narrowing : Bool} {p q : Point} (act : Acts narrowing p q)
    (con : p.Consistent) : Effect narrowing p q := by
  obtain ⟨solver, literals, classes⟩ := con
  cases act with
  | take some_left => exact .take some_left
  | review none_left on => exact .review none_left on
  | rest none_left off => exact .rest none_left off
  | @solve s t r done c cs run =>
    have ends := solver.step_effect narrowing r done c cs
    simp only [Ends, run] at ends
    exact ends
  | @mismatch s t r done c cs e run =>
    have ends := solver.step_effect narrowing r done c cs
    simp only [Ends, run] at ends
    exact ends
  | again => exact .again
  | @check s t r done literal origin ls run =>
    have has : s.graph.Has literal := literals _ rfl (literal, origin) (by simp)
    have ends := solver.check_effect narrowing r done has origin ls
    simp only [Ends, run] at ends
    exact ends
  | @refuse s t r done literal origin ls e run =>
    have has : s.graph.Has literal := literals _ rfl (literal, origin) (by simp)
    have ends := solver.check_effect narrowing r done has origin ls
    simp only [Ends, run] at ends
    exact ends
  | checked => exact .checked
  | @settle s t r done root bounds es before now run =>
    have kept : s.pending.get? root = some bounds := classes _ _ rfl (root, bounds) (by simp)
    have ends := solver.narrowClass_ends kept
    simp only [Ends, run] at ends
    exact .settle kept ends
  | @unsettled s t r done root bounds es before e run =>
    have kept : s.pending.get? root = some bounds := classes _ _ rfl (root, bounds) (by simp)
    have ends := solver.narrowClass_ends kept
    simp only [Ends, run] at ends
    obtain ⟨m, g, misfit, same, rfl, rfl⟩ := ends
    exact .unsettled kept misfit same
  | settled => exact .settled

end Inversion

theorem Effect.consistent {narrowing : Bool} {p q : Point} (effect : Effect narrowing p q)
    (con : p.Consistent) : q.Consistent := by
  obtain ⟨solver, literals, classes⟩ := con
  have wf := solver.forest
  cases effect with
  | take _ => exact ⟨solver.compress (.refl wf) rfl rfl, by simp, by simp⟩
  | review _ _ =>
    refine ⟨solver.compress (.refl wf) rfl rfl, ?_, by simp⟩
    rintro _ ⟨⟩ l mem
    exact solver.literals l mem
  | rest _ _ => exact ⟨solver.compress (.refl wf) rfl rfl, by simp, by simp⟩
  | solve named solved => exact ⟨solver.solves named.1 named.2 solved, by simp, by simp⟩
  | clash _ _ _ => exact ⟨solver.compress (.refl wf) rfl rfl, by simp, by simp⟩
  | unknown _ => exact ⟨solver, by simp, by simp⟩
  | again => exact ⟨solver, by simp, by simp⟩
  | check same _ =>
    refine ⟨solver.compress same rfl rfl, ?_, by simp⟩
    rintro _ ⟨⟩ l mem
    exact same.has_iff.mpr (literals _ rfl l (by simp [mem]))
  | refuse same _ => exact ⟨solver.compress same rfl rfl, by simp, by simp⟩
  | checked =>
    refine ⟨solver, by simp, ?_⟩
    rintro _ _ ⟨⟩ e mem
    exact solver.distinct.mem_entries.mp mem
  | settle _ settled =>
    refine ⟨solver.settles settled, by simp, ?_⟩
    rintro _ _ ⟨⟩ e mem
    rw [settled.pending_eq]
    exact classes _ _ rfl e (by simp [mem])
  | unsettled _ _ same => exact ⟨solver.compress same rfl rfl, by simp, by simp⟩
  | @settled s r done emitted => cases emitted <;> exact ⟨solver, by simp, by simp⟩

theorem Solver.Consistent.start {s : Solver} (con : s.Consistent) : (Point.start s).Consistent :=
  ⟨con, by simp [Point.start], by simp [Point.start]⟩

theorem Passes.consistent {narrowing : Bool} {p q : Point} (passes : Passes narrowing p q)
    (con : p.Consistent) : q.Consistent :=
  passes.invariant con fun act con => (act.effect con).consistent con

/-- What holds at a point and is kept by every effect on the way holds at all later points. -/
theorem Passes.induct_reached {narrowing : Bool} {p q : Point} {I : Point → Prop}
    (passes : Passes narrowing p q) (con : p.Consistent) (start : I p)
    (kept : ∀ {p' q'}, Passes narrowing p p' → Effect narrowing p' q' → I p' → I q') : I q := by
  induction passes with
  | refl => exact start
  | tail path act ih => exact kept path (act.effect (Passes.consistent path con)) ih

theorem Passes.induct {narrowing : Bool} {p q : Point} {I : Point → Prop}
    (passes : Passes narrowing p q) (con : p.Consistent) (start : I p)
    (kept : ∀ {p q}, p.Consistent → Effect narrowing p q → I p → I q) : I q :=
  passes.induct_reached con start fun path effect => kept (path.consistent con) effect

end ConstFun
