import ConstFun.Proofs.Equalities

namespace ConstFun

open TypeGraph

/-- Some of the constraints has the origin. -/
def Originates (cs : List Constraint) (origin : Option Span) : Prop := ∃ c ∈ cs, c.origin = origin

theorem Originates.of_mem {cs : List Constraint} {c : Constraint} (mem : c ∈ cs) :
    Originates cs c.origin := ⟨c, mem, rfl⟩

theorem exists_origin_of_head {bounds : List PendingBound} (nonempty : bounds ≠ []) :
    ∃ b ∈ bounds, bounds.head?.bind (·.origin) = b.origin := by
  obtain ⟨b, bs, rfl⟩ := List.exists_cons_of_ne_nil nonempty
  exact ⟨b, by simp, rfl⟩

/-- A mismatch that is found in settling a class has the origin of one of its bounds. -/
theorem Misfits.exists_origin {root : Handle} {bounds : List PendingBound} {s : Solver}
    {e : TypeError} (misfit : Misfits root bounds s e) (nonempty : bounds ≠ []) :
    ∃ b ∈ bounds, e.origin = b.origin := by
  have first := exists_origin_of_head nonempty
  cases misfit with
  | @unfit k b known resolved mem outside =>
    cases own : b.origin with
    | none => simpa [own] using first
    | some span => exact ⟨b, mem, by simp [own]⟩
  | disjoint known unresolved empty => exact first

namespace Solver

variable {cs : List Constraint} {s t : Solver}

/-- All that the solver could hand on has an origin among those of the constraints. -/
structure Traced (cs : List Constraint) (s : Solver) : Prop where
  log : ∀ c ∈ s.store.log.toList, Originates cs c.origin
  bounds : ∀ r b, b ∈ s.bounds r → Originates cs b.origin

theorem Traced.bounds_of_eq (traced : s.Traced cs) (pending : t.pending = s.pending) :
    ∀ r b, b ∈ t.bounds r → Originates cs b.origin := by
  intro r b mem
  unfold Solver.bounds at mem
  rw [pending] at mem
  exact traced.bounds r b mem

theorem Traced.emit (traced : s.Traced cs) {new : List Constraint} (emitted : Emits s t new)
    (origins : ∀ c ∈ new, Originates cs c.origin) (pending : t.pending = s.pending) :
    t.Traced cs where
  log c mem := by
    rw [emitted.log] at mem
    exact (List.mem_append.mp mem).elim (traced.log c) (origins c)
  bounds := traced.bounds_of_eq pending

theorem Traced.keep (traced : s.Traced cs) (log : t.store.log = s.store.log)
    (pending : t.pending = s.pending) : t.Traced cs where
  log c mem := traced.log c (log ▸ mem)
  bounds := traced.bounds_of_eq pending

theorem Traced.solves (traced : s.Traced cs) {c : Constraint} (origin : Originates cs c.origin)
    (solved : Solves c s t) : t.Traced cs := by
  cases solved with
  | @equated color earlier g j _ _ _ _ =>
    exact traced.emit (.equal g j earlier.right c.right c.origin) (by simpa using origin) rfl
  | @parked color g j _ _ _ _ _ =>
    refine ⟨traced.log, fun r b mem => ?_⟩
    rw [bounds_park] at mem
    split at mem
    next =>
      rcases List.mem_append.mp mem with old | new
      · exact traced.bounds _ b old
      · rw [List.mem_singleton.mp new]
        exact origin
    next => exact traced.bounds r b mem
  | @lifted color k g j _ _ _ _ _ =>
    exact traced.emit (.subtype g j _ c.right c.origin color) (by simpa using origin) rfl
  | @collapsed color k g j _ _ _ _ _ =>
    exact traced.emit (.equal g j _ c.left c.origin) (by simpa using origin) rfl
  | @lowered color k k' g j _ _ _ _ _ =>
    exact traced.emit (.subtype g j c.left _ c.origin color) (by simpa using origin) rfl
  | agreed _ _ => exact traced.keep rfl rfl
  | joined _ _ _ _ => exact traced.keep rfl rfl
  | merged _ _ _ apart _ _ =>
    refine ⟨traced.log, fun r b mem => ?_⟩
    rcases (mem_bounds_rehomed apart rfl).mp mem with ⟨_, old⟩ | ⟨_, b₀, old, rfl⟩
    · exact traced.bounds r b old
    · exact traced.bounds _ b₀ old
  | @deferred k k' g j _ _ _ _ _ _ =>
    exact traced.emit (.equal g j _ _ c.origin) (by simpa using origin) rfl

theorem Traced.settles (traced : s.Traced cs) (con : s.Consistent) {root : Handle}
    {bounds : List PendingBound} (kept : s.pending.get? root = some bounds) {now : Bool}
    (settled : Settles root bounds s now t) : t.Traced cs := by
  cases settled with
  | skipped _ => exact traced
  | waiting _ _ | fitting _ _ _ _ | ambiguous _ _ _ _ _ _ => exact traced.keep rfl rfl
  | @narrowed k target g j _ _ _ _ _ _ =>
    obtain ⟨b, mem, origin⟩ := exists_origin_of_head (con.nonempty root bounds kept)
    rw [← bounds_of_get? kept] at mem
    refine traced.emit (.equal g j root target _) ?_ rfl
    simpa [origin] using traced.bounds root b mem

theorem Traced.mono {cs' : List Constraint} (traced : s.Traced cs) (more : cs ⊆ cs') :
    s.Traced cs' := by
  have wider : ∀ {origin}, Originates cs origin → Originates cs' origin := by
    rintro origin ⟨c, mem, same⟩
    exact ⟨c, more mem, same⟩
  exact ⟨fun c mem => wider (traced.log c mem), fun r b mem => wider (traced.bounds r b mem)⟩

/-- The log was kept, and what was added to it has origins that were in it. -/
def Inherits (s t : Solver) : Prop :=
  ∃ new, t.store.log.toList = s.store.log.toList ++ new ∧
    ∀ c ∈ new, Originates s.store.log.toList c.origin

/-- The origin is that of a constraint in the log, or of a literal that no kind can hold. -/
def Knows (s : Solver) (origin : Option Span) : Prop :=
  Originates s.store.log.toList origin ∨ ∃ l ∈ s.unrepresentable.entries, l.2 = origin

theorem Inherits.refl (s : Solver) : s.Inherits s := ⟨[], by simp, by simp⟩

end Solver

/-- The invariant of a run from `first`: what there is at a point comes from what there was. -/
structure Point.Traced (first : Solver) (p : Point) : Prop where
  solver : p.solver.Traced first.store.log.toList
  log : first.store.log.toList <+: p.solver.store.log.toList
  failed : ∀ e, p.stage = .failed (.mismatch e) → first.Knows e.origin

section Runs

variable {narrowing : Bool} {first : Solver} {p q : Point}

theorem Effect.log_prefix (effect : Effect narrowing p q) (con : p.Consistent) :
    p.solver.store.log.toList <+: q.solver.store.log.toList := by
  cases effect with
  | solve named solved =>
    obtain ⟨new, emitted, _⟩ := solved.emits con.solver named
    exact ⟨new, emitted.log.symm⟩
  | settle kept settled =>
    obtain ⟨new, emitted, _⟩ := settled.emits con.solver kept
    exact ⟨new, emitted.log.symm⟩
  | _ => exact List.prefix_rfl

/-- What an act emits, parks or refuses has the origin of the constraint, of the literal or of the
bound that the act is about. -/
theorem Effect.traced (effect : Effect narrowing p q) (con : p.Consistent)
    (logged : ∀ c ∈ p.ahead, c ∈ p.solver.store.log.toList) (listed : p.Listed first)
    (traced : p.Traced first) : q.Traced first := by
  have log := traced.log.trans (effect.log_prefix con)
  have solver := traced.solver
  cases effect with
  | @solve s t r done cs c named solved =>
    -- what is ahead was logged, so it is from before the run or was emitted with an older origin
    have origin := solver.log c (logged c (by simp [Point.ahead]))
    exact ⟨solver.solves origin solved, log, by simp⟩
  | @clash s r done cs c k k' j _ _ _ =>
    have origin := solver.log c (logged c (by simp [Point.ahead]))
    refine ⟨solver.keep rfl rfl, log, ?_⟩
    rintro _ ⟨⟩
    exact .inl origin
  | @refuse s r done literal origin ls g k _ _ =>
    have known := listed.2 _ rfl (literal, origin) (by simp)
    refine ⟨solver.keep rfl rfl, log, ?_⟩
    rintro _ ⟨⟩
    exact .inr ⟨(literal, origin), known, rfl⟩
  | settle kept settled => exact ⟨solver.settles con.solver kept settled, log, by simp⟩
  | @unsettled s r done root bounds es before g e kept misfit _ =>
    obtain ⟨b, mem, origin⟩ := misfit.exists_origin (con.solver.nonempty root bounds kept)
    rw [← Solver.bounds_of_get? kept] at mem
    refine ⟨solver.keep rfl rfl, log, ?_⟩
    rintro _ ⟨⟩
    exact .inl (origin ▸ solver.bounds root b mem)
  | @settled s r done emitted =>
    refine ⟨solver, log, ?_⟩
    cases emitted <;> simp
  | take _ | review _ _ | rest _ _ | unknown _ | again | check _ _ | checked =>
    exact ⟨solver.keep rfl rfl, log, by simp⟩

theorem Passes.traced (passes : Passes narrowing (Point.start first) p) (con : first.Consistent)
    (queued : first.Queued) (traced : first.Traced first.store.log.toList) : p.Traced first := by
  have start : (Point.start first).Traced first :=
    ⟨traced, List.prefix_rfl, by simp [Point.start]⟩
  exact passes.induct_reached con.start start fun path effect =>
    effect.traced (path.consistent con.start) (path.logged con queued effect.runs)
      (path.listed con)

theorem Point.Traced.inherits (traced : p.Traced first) : first.Inherits p.solver := by
  obtain ⟨new, log⟩ := traced.log
  refine ⟨new, log.symm, fun c mem => traced.solver.log c ?_⟩
  rw [← log]
  exact List.mem_append.mpr (.inr mem)

/-- What a run leaves comes from what it found, however it ends. -/
theorem Solver.Traced.run (traced : first.Traced first.store.log.toList) (con : first.Consistent)
    (queued : first.Queued) (narrowing : Bool) :
    Ends (SolverM.solve narrowing) first
      (fun _ t => t.Traced first.store.log.toList ∧ first.Inherits t)
      (fun e t => t.Traced first.store.log.toList ∧ first.Inherits t ∧
        ∀ m, e = .mismatch m → first.Knows m.origin) := by
  refine (solve_ends narrowing con).imp ?_ ?_
  · rintro count _ ⟨last, r, solved, _, _, rfl, passes⟩
    have reached := passes.traced con queued traced
    exact ⟨reached.solver.keep rfl rfl, reached.inherits⟩
  · rintro e t ⟨r, solved, passes⟩
    have reached := passes.traced con queued traced
    refine ⟨reached.solver, reached.inherits, ?_⟩
    rintro m rfl
    exact reached.failed m rfl

end Runs

namespace Session

variable {options : TypingOptions} {n : Nat} {s : Session}

/-- The bounds that wait between the runs have origins in the log. -/
theorem Driven.traced (driven : Driven options n s) : s.toSolver.Traced s.store.log.toList := by
  refine driven.induct (I := fun s => s.Traced s.store.log.toList) ?_ ?_ ?_
  · exact ⟨fun c => .of_mem, by simp [Session.new, Solver.bounds, Table.get?]⟩
  · intro n s t driven op traced
    obtain ⟨new, grown⟩ := op.extends driven.wellKept.consistent
    have more : s.store.log.toList ⊆ t.store.log.toList := by
      rw [grown.emits.log]
      exact List.subset_append_left _ _
    exact ⟨fun c => .of_mem, (traced.mono more).bounds_of_eq grown.pending⟩
  · intro n s driven traced narrowing
    have later : ∀ t : Solver, t.Traced s.store.log.toList → s.toSolver.Inherits t →
        t.Traced t.store.log.toList := by
      rintro t kept ⟨new, log, _⟩
      refine kept.mono ?_
      rw [log]
      exact List.subset_append_left _ _
    refine (traced.run driven.wellKept.consistent driven.wellKept.queued narrowing).imp ?_ ?_
    · intro count t ended
      exact later t ended.1 ended.2
    · intro e t ended
      exact later t ended.1 ended.2.1

/-- However a run ends, the log is what it was with constraints added at its end, and these have
origins that were in it. So has a mismatch, if it is not about a literal that no kind can hold. This
goes for every run of the solver, and for solving the session. -/
theorem Driven.origins_handed_on (driven : Driven options n s) :
    (∀ narrowing, Ends (SolverM.solve narrowing) s.toSolver (fun _ t => s.toSolver.Inherits t)
      (fun e t => s.toSolver.Inherits t ∧ ∀ m, e = .mismatch m → s.toSolver.Knows m.origin)) ∧
    Ends Session.solve s (fun _ t => s.toSolver.Inherits t.toSolver)
      (fun e t => s.toSolver.Inherits t.toSolver ∧
        ∀ m, e = .mismatch m → s.toSolver.Knows m.origin) := by
  have kept := driven.wellKept
  have runs : ∀ narrowing, Ends (SolverM.solve narrowing) s.toSolver
      (fun _ t => s.toSolver.Inherits t)
      (fun e t => s.toSolver.Inherits t ∧ ∀ m, e = .mismatch m → s.toSolver.Knows m.origin) :=
    fun narrowing => (driven.traced.run kept.consistent kept.queued narrowing).imp
      (fun _ _ ended => ended.2) (fun _ _ ended => ended.2)
  refine ⟨runs, ?_⟩
  have run := runs s.options.narrowing
  unfold Ends at run ⊢
  rw [solve_eq]
  by_cases once : s.solved
  · rw [if_pos once]
    exact ⟨.refl _, by simp⟩
  · rw [if_neg once]
    unfold onSolver
    cases ran : SolverM.solve s.options.narrowing s.toSolver <;> simpa [ran] using run

/-- Two variables with a bound each, which are made one class that then gets the kind `i8`. -/
def squeezed : Session :=
  let s := { Session.new {} with toSolver := (Session.new {}).toSolver.newVariable.2 }
  let s := { s with toSolver := s.toSolver.newVariable.2 }
  let s := { s with toSolver := (s.toSolver.concrete .i8).2 }
  let s := { s with toSolver := (s.toSolver.concrete .i32).2 }
  let s := s.constrainSubtype 0 2 (some ⟨1, 1, 1, 2⟩)
  let s := s.constrainSubtype 1 3 (some ⟨2, 1, 2, 2⟩)
  let s := s.constrainEqual 0 1 (some ⟨3, 1, 3, 2⟩)
  s.constrainSubtype 2 1 (some ⟨4, 1, 4, 2⟩)

/-- The run adds to the log and then fails, at the second bound. -/
theorem origins_handed_on_squeezed :
    Driven {} 0 squeezed ∧
      ∃ m t, Session.solve squeezed = .error (.mismatch m) t ∧
        squeezed.store.log.size < t.store.log.size ∧ m.origin = some ⟨2, 1, 2, 2⟩ ∧
        squeezed.toSolver.Inherits t.toSolver ∧ squeezed.toSolver.Knows m.origin := by
  have nodes : Driven {} 0 _ := .concrete (.concrete (.newVariable (.newVariable .new)) .i8) .i32
  have driven : Driven {} 0 squeezed :=
    .constrainSubtype (.constrainEqual (.constrainSubtype (.constrainSubtype nodes
      0 2 (some ⟨1, 1, 1, 2⟩) none) 1 3 (some ⟨2, 1, 2, 2⟩) none)
      0 1 (some ⟨3, 1, 3, 2⟩)) 2 1 (some ⟨4, 1, 4, 2⟩) none
  have fails : (match Session.solve squeezed with
      | .error (.mismatch m) t =>
        decide (squeezed.store.log.size < t.store.log.size ∧ m.origin = some ⟨2, 1, 2, 2⟩)
      | _ => false) = true := by decide +kernel
  have ends := driven.origins_handed_on.2
  refine ⟨driven, ?_⟩
  cases ran : Session.solve squeezed with
  | ok count t => simp [ran] at fails
  | error e t =>
    simp only [Ends, ran] at ends
    cases e with
    | fault f => simp [ran] at fails
    | mismatch m =>
      simp only [ran, decide_eq_true_eq] at fails
      exact ⟨m, t, rfl, fails.1, fails.2, ends.1, ends.2 m rfl⟩

end Session

end ConstFun
