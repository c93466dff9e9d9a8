import ConstFun.Proofs.Consistency

namespace ConstFun

open TypeGraph

namespace Constraint

/-- A bound on the constraints that solving this one can still lead to, itself included. -/
def weight (g : TypeGraph) (c : Constraint) : Nat :=
  match c.relation with
  | .subtype _ => if g.kind? c.left = none then 4 else if g.kind? c.right = none then 3 else 1
  | .equal => if g.kind? c.left = none ∨ g.kind? c.right = none then 2 else 1

/-- The constraint gives a kind to an open class. -/
def Narrows (g : TypeGraph) (c : Constraint) : Prop :=
  c.relation = .equal ∧ g.node? c.left = some .free ∧ g.kind? c.right ≠ none

theorem weight_pos (g : TypeGraph) (c : Constraint) : 0 < c.weight g := by
  unfold weight
  split <;> split_ifs <;> omega

theorem weight_le (g : TypeGraph) (c : Constraint) : c.weight g ≤ 4 := by
  unfold weight
  split <;> split_ifs <;> omega

theorem weight_equal_le (g : TypeGraph) (left right : Handle) (origin : Option Span) :
    weight g ⟨left, .equal, right, origin⟩ ≤ 2 := by
  simp only [weight]
  split_ifs <;> omega

theorem weight_congr {g g' : TypeGraph} (kinds : ∀ h, g'.kind? h = g.kind? h) (c : Constraint) :
    c.weight g' = c.weight g := by
  simp only [weight, kinds]

theorem Narrows.names {g : TypeGraph} {c : Constraint} (narrows : c.Narrows g) : c.Names g := by
  obtain ⟨_, free, resolved⟩ := narrows
  obtain ⟨k, hk⟩ := Option.ne_none_iff_exists'.mp resolved
  exact ⟨(node?_eq_free.mp free).1, has_of_kind? hk⟩

theorem Names.imp {g g' : TypeGraph} (has : ∀ h, g.Has h → g'.Has h) {c : Constraint}
    (names : c.Names g) : c.Names g' :=
  ⟨has _ names.1, has _ names.2⟩

end Constraint

/-- The constraints `new` went to the end of the log and of the worklist. -/
structure Emits (s t : Solver) (new : List Constraint) : Prop where
  log : t.store.log.toList = s.store.log.toList ++ new
  worklist : t.store.worklist.toList = s.store.worklist.toList ++ new

namespace Emits

variable {s : Solver}

theorem nothing {t : Solver} (same : t.store = s.store) : Emits s t [] :=
  ⟨by simp [same], by simp [same]⟩

theorem append {t u : Solver} {new new' : List Constraint} (first : Emits s t new)
    (second : Emits t u new') : Emits s u (new ++ new') where
  log := by rw [second.log, first.log, List.append_assoc]
  worklist := by rw [second.worklist, first.worklist, List.append_assoc]

theorem equal (g : TypeGraph) (j : Array Event) (left right : Handle) (origin : Option Span) :
    Emits s ((s.withGraph g j).constrainEqual left right origin)
      [⟨left, .equal, right, origin⟩] :=
  ⟨Array.toList_push .., Array.toList_push ..⟩

theorem subtype (g : TypeGraph) (j : Array Event) (left right : Handle) (origin : Option Span)
    (color : Int) :
    Emits s ((s.withGraph g j).constrainSubtype left right origin (some color))
      [⟨left, .subtype color, right, origin⟩] :=
  ⟨Array.toList_push .., Array.toList_push ..⟩

end Emits

/-- Solving a constraint compresses paths, or it merges an open class that an equality names. -/
theorem Solves.graph_cases {c : Constraint} {s t : Solver} (wf : s.graph.WellFormed)
    (solved : Solves c s t) :
    Compresses s.graph t.graph ∨ ∃ child target, c.relation = .equal ∧
      (child = s.graph.root c.left ∧ target = s.graph.root c.right ∨
        child = s.graph.root c.right ∧ target = s.graph.root c.left) ∧
      child ≠ target ∧ s.graph.root target = target ∧ s.graph.kind? child = none ∧
      Merges s.graph child target t.graph := by
  cases solved with
  | equated _ _ _ same | parked _ _ _ _ same | lifted _ _ _ _ same | collapsed _ _ _ _ same
  | lowered _ _ _ _ same | joined _ _ _ same | deferred _ _ _ _ _ same => exact .inl same
  | agreed _ _ => exact .inl (.refl wf)
  | @merged child target g j equal _ sides apart unresolved merges =>
    refine .inr ⟨child, target, equal, ?_, apart, ?_, unresolved, merges⟩
    · rcases sides with sides | ⟨left, right, _⟩
      · exact .inl sides
      · exact .inr ⟨left, right⟩
    · rcases sides with ⟨_, rfl⟩ | ⟨_, rfl, _⟩ <;> exact wf.root_root _

theorem Solves.kind_eq {c : Constraint} {s t : Solver} (wf : s.graph.WellFormed)
    (solved : Solves c s t) (h : Handle) : t.graph.kind? h = s.graph.kind? h := by
  rcases solved.graph_cases wf with same | ⟨_, _, _, _, _, _, _, merges⟩
  · exact same.kind_eq h
  · exact merges.kind_eq h

theorem Solves.has_iff {c : Constraint} {s t : Solver} (wf : s.graph.WellFormed)
    (solved : Solves c s t) {h : Handle} : t.graph.Has h ↔ s.graph.Has h := by
  rcases solved.graph_cases wf with same | ⟨_, _, _, _, _, _, _, merges⟩
  · exact same.has_iff
  · exact merges.has_iff

/-- What solving a constraint emits is paid by the weight of the constraint. -/
theorem Solves.emits {c : Constraint} {s t : Solver} (con : s.Consistent)
    (named : c.Names s.graph) (solved : Solves c s t) :
    ∃ new, Emits s t new ∧ (∀ c' ∈ new, c'.Names s.graph) ∧
      (new.map (·.weight s.graph)).sum + 1 ≤ c.weight s.graph := by
  have wf := con.forest
  have left := wf.root_has named.1
  have right := wf.root_has named.2
  have silent : t.store = s.store → ∃ new, Emits s t new ∧ (∀ c' ∈ new, c'.Names s.graph) ∧
      (new.map (·.weight s.graph)).sum + 1 ≤ c.weight s.graph :=
    fun same => ⟨[], .nothing same, by simp, c.weight_pos s.graph⟩
  cases solved with
  | @equated color earlier g j sub var found same =>
    have mem := List.mem_of_find?_eq_some found
    have has := (con.bounds _ earlier mem).1
    have light := Constraint.weight_equal_le s.graph earlier.right c.right c.origin
    refine ⟨_, .equal g j earlier.right c.right c.origin,
      by simp [Constraint.Names, has, named.2], ?_⟩
    simp only [List.map_cons, List.map_nil, List.sum_cons, List.sum_nil]
    rw [Constraint.weight.eq_def s.graph c]
    simp only [sub, var, if_true]
    omega
  | parked _ _ _ _ _ => exact silent rfl
  | @lifted color k g j sub var fresh resolved same =>
    refine ⟨_, .subtype g j _ _ c.origin color, by simp [Constraint.Names, left, named.2], ?_⟩
    simp only [List.map_cons, List.map_nil, List.sum_cons, List.sum_nil, Constraint.weight, sub,
      var, resolved]
    split_ifs <;> simp_all
  | @collapsed color k g j sub kind var unresolved same =>
    have light := Constraint.weight_equal_le s.graph (s.graph.root c.right) c.left c.origin
    refine ⟨_, .equal g j _ _ c.origin, by simp [Constraint.Names, right, named.1], ?_⟩
    simp only [List.map_cons, List.map_nil, List.sum_cons, List.sum_nil]
    rw [Constraint.weight.eq_def s.graph c]
    simp only [sub, kind, var, if_true, reduceCtorEq, if_false]
    omega
  | @lowered color k k' g j sub kind var resolved same =>
    refine ⟨_, .subtype g j _ _ c.origin color, by simp [Constraint.Names, right, named.1], ?_⟩
    simp [Constraint.weight, sub, kind, var, resolved]
  | agreed _ _ => exact silent rfl
  | joined _ _ _ _ => exact silent rfl
  | merged _ _ _ _ _ _ => exact silent rfl
  | @deferred k k' g j equal var apart hl hr same =>
    refine ⟨_, .equal g j _ _ c.origin, by simp [Constraint.Names, left, right], ?_⟩
    simp [Constraint.weight, equal, var, hl, hr]

/-- Settling a class emits nothing, or the one constraint that gives it its kind. -/
theorem Settles.emits {root : Handle} {bounds : List PendingBound} {s t : Solver} {now : Bool}
    (con : s.Consistent) (kept : s.pending.get? root = some bounds)
    (settled : Settles root bounds s now t) :
    ∃ new, Emits s t new ∧ new.length = now.toNat ∧
      ∀ c ∈ new, c.left = root ∧ c.Narrows s.graph := by
  cases settled with
  | skipped _ | waiting _ _ | fitting _ _ _ _ | ambiguous _ _ _ _ _ _ =>
    exact ⟨[], .nothing rfl, rfl, by simp⟩
  | @narrowed k target g j top known unresolved only kind same =>
    refine ⟨_, .equal g j root target _, rfl, ?_⟩
    have free := node?_eq_free.mpr ⟨(con.key_root kept).1, unresolved, top⟩
    simp [Constraint.Narrows, free, kind]

/-- The constraints that a point has still to solve. -/
def Point.ahead (p : Point) : List Constraint :=
  match p.stage with
  | .solving cs => cs ++ p.solver.store.worklist.toList
  | _ => p.solver.store.worklist.toList

/-- A run from `first` found a mismatch, or it has solved a part of the constraints in their order:
those that were waiting at first, and then those emitted since. All of them name nodes. -/
def Point.OnTrack (first : Solver) (p : Point) : Prop :=
  (∃ e, p.stage = .failed (.mismatch e)) ∨
    (∀ e, p.stage ≠ .failed e) ∧ ∃ later,
      p.solver.store.log.toList = first.store.log.toList ++ later ∧
      p.solved ++ p.ahead = first.store.worklist.toList ++ later ∧
      ∀ c ∈ first.store.worklist.toList ++ later, c.Names p.solver.graph

theorem Solver.onTrack_start {s : Solver}
    (named : ∀ c ∈ s.store.worklist.toList, c.Names s.graph) : (Point.start s).OnTrack s := by
  refine .inr ⟨by simp [Point.start], [], ?_⟩
  simpa [Point.start, Point.ahead] using named

theorem Effect.has_iff {narrowing : Bool} {p q : Point} (effect : Effect narrowing p q)
    (con : p.Consistent) {h : Handle} : q.solver.graph.Has h ↔ p.solver.graph.Has h := by
  cases effect with
  | solve _ solved => exact solved.has_iff con.solver.forest
  | check same _ | refuse same _ | unsettled _ _ same => exact same.has_iff
  | settle _ settled => exact (settled.compresses con.solver.forest).has_iff
  | _ => exact Iff.rfl

theorem Passes.has_iff {narrowing : Bool} {first : Solver} {p : Point}
    (passes : Passes narrowing (Point.start first) p) (con : first.Consistent) (h : Handle) :
    p.solver.graph.Has h ↔ first.graph.Has h :=
  passes.induct (I := fun p => p.solver.graph.Has h ↔ first.graph.Has h) con.start Iff.rfl
    fun con effect same => (effect.has_iff con).trans same

/-- An act moves what is solved along the order, and what it emits goes to the end. -/
theorem Effect.emits {narrowing : Bool} {p q : Point} (effect : Effect narrowing p q)
    (con : p.Consistent) (runs : ∀ e, q.stage ≠ .failed e) :
    ∃ new, q.solver.store.log.toList = p.solver.store.log.toList ++ new ∧
      q.solved ++ q.ahead = p.solved ++ p.ahead ++ new ∧
      ∀ c ∈ new, c.Names q.solver.graph := by
  have silent : q.solver.store.log = p.solver.store.log →
      q.solved ++ q.ahead = p.solved ++ p.ahead →
      ∃ new, q.solver.store.log.toList = p.solver.store.log.toList ++ new ∧
        q.solved ++ q.ahead = p.solved ++ p.ahead ++ new ∧
        ∀ c ∈ new, c.Names q.solver.graph :=
    fun log order => ⟨[], by simp [log], by simp [order], by simp⟩
  cases effect with
  | take _ =>
    refine silent rfl ?_
    simp [Point.ahead, Solver.record, Solver.drained, ConstraintStore.takeBatch]
  | review none_left _ | rest none_left _ =>
    refine silent rfl ?_
    rw [Array.isEmpty_iff] at none_left
    simp [Point.ahead, Solver.drained, ConstraintStore.takeBatch, none_left]
  | solve named solved =>
    obtain ⟨new, emitted, names, _⟩ := solved.emits con.solver named
    refine ⟨new, emitted.log, ?_, fun c mem =>
      (names c mem).imp fun _ => (solved.has_iff con.solver.forest).mpr⟩
    simp [Point.ahead, emitted.worklist]
  | clash _ _ _ | unknown _ | refuse _ _ | unsettled _ _ _ => exact absurd rfl (runs _)
  | again => exact silent rfl (by simp [Point.ahead])
  | check _ _ => exact silent rfl rfl
  | checked => exact silent rfl rfl
  | settle kept settled =>
    obtain ⟨new, emitted, _, narrows⟩ := settled.emits con.solver kept
    have same := settled.compresses con.solver.forest
    refine ⟨new, emitted.log, ?_,
      fun c mem => (narrows c mem).2.names.imp fun _ => same.has_iff.mpr⟩
    simp [Point.ahead, emitted.worklist]
  | @settled s r done emitted => exact silent rfl (by cases emitted <;> simp [Point.ahead])

/-- The waiting constraints are the last ones of the log, in its order. -/
def Solver.Queued (s : Solver) : Prop := s.store.worklist.toList <:+ s.store.log.toList

theorem Emits.queued {s t : Solver} {new : List Constraint} (emitted : Emits s t new)
    (queued : s.Queued) : t.Queued := by
  obtain ⟨before, log⟩ := queued
  refine ⟨before, ?_⟩
  rw [emitted.worklist, emitted.log, ← log, List.append_assoc]

theorem Effect.queued {narrowing : Bool} {p q : Point} (effect : Effect narrowing p q)
    (con : p.Consistent) (queued : p.solver.Queued) : q.solver.Queued := by
  cases effect with
  | take _ | review _ _ | rest _ _ => exact List.nil_suffix
  | solve named solved =>
    obtain ⟨new, emitted, _⟩ := solved.emits con.solver named
    exact emitted.queued queued
  | settle kept settled =>
    obtain ⟨new, emitted, _⟩ := settled.emits con.solver kept
    exact emitted.queued queued
  | _ => exact queued

/-- Nothing waits while literals are checked, while no class was narrowed, and at the end. -/
def Point.Idle (p : Point) : Prop :=
  match p.stage with
  | .checking _ | .settling _ false | .finished => p.solver.store.worklist.toList = []
  | _ => True

theorem Effect.idle {narrowing : Bool} {p q : Point} (effect : Effect narrowing p q)
    (con : p.Consistent) (idle : p.Idle) : q.Idle := by
  cases effect with
  | review _ _ | rest _ _ => exact rfl
  | check _ _ | checked => exact idle
  | @settle s t r done root bounds es before now kept settled =>
    cases now with
    | true => exact trivial
    | false =>
      cases before with
      | true => exact trivial
      | false =>
        obtain ⟨new, emitted, length, _⟩ := settled.emits con.solver kept
        have none : new = [] := List.length_eq_zero_iff.mp length
        have waiting : s.store.worklist.toList = [] := idle
        change t.store.worklist.toList = []
        rw [emitted.worklist, waiting, none]
        rfl
  | @settled s r done emitted =>
    cases emitted with
    | true => exact trivial
    | false => exact idle
  | _ => exact trivial

/-- Acts keep a run on its track: it fails by a mismatch only. -/
theorem Effect.onTrack {narrowing : Bool} {first : Solver} {p q : Point}
    (effect : Effect narrowing p q) (con : p.Consistent) (track : p.OnTrack first) :
    q.OnTrack first := by
  rcases track with ⟨e, failed⟩ | ⟨_, later, log, order, named⟩
  · cases effect <;> cases failed
  by_cases fails : ∃ e, q.stage = .failed e
  · left
    cases effect with
    | clash _ _ _ | refuse _ _ | unsettled _ _ _ => exact ⟨_, rfl⟩
    | @unknown s r done cs c f unnamed =>
      refine absurd (named c ?_) unnamed
      rw [← order]
      simp [Point.ahead]
    | @settled s r done emitted => cases emitted <;> simp at fails
    | _ => simp at fails
  · have runs : ∀ e, q.stage ≠ .failed e := fun e eq => fails ⟨e, eq⟩
    obtain ⟨new, emitted, ahead, names⟩ := effect.emits con runs
    refine .inr ⟨runs, later ++ new, ?_, ?_, ?_⟩
    · rw [emitted, log, List.append_assoc]
    · rw [ahead, order, List.append_assoc]
    · intro c mem
      rw [← List.append_assoc] at mem
      rcases List.mem_append.mp mem with mem | mem
      · exact (named c mem).imp fun _ => (effect.has_iff con).mpr
      · exact names c mem

theorem Passes.queued {narrowing : Bool} {p q : Point} (passes : Passes narrowing p q)
    (con : p.Consistent) (queued : p.solver.Queued) : q.solver.Queued :=
  passes.induct con queued fun con effect => effect.queued con

theorem Passes.idle {narrowing : Bool} {s : Solver} {p : Point}
    (passes : Passes narrowing (Point.start s) p) (con : s.Consistent) : p.Idle :=
  passes.induct con.start trivial fun con effect => effect.idle con

theorem Passes.onTrack {narrowing : Bool} {first : Solver} {p : Point}
    (passes : Passes narrowing (Point.start first) p) (con : first.Consistent)
    (named : ∀ c ∈ first.store.worklist.toList, c.Names first.graph) : p.OnTrack first :=
  passes.induct con.start (Solver.onTrack_start named) fun con effect => effect.onTrack con

theorem Passes.mismatch {narrowing : Bool} {first : Solver} {p : Point} {e : SolveFailure}
    (passes : Passes narrowing (Point.start first) p) (con : first.Consistent)
    (named : ∀ c ∈ first.store.worklist.toList, c.Names first.graph)
    (failed : p.stage = .failed e) : ∃ m, e = .mismatch m := by
  rcases passes.onTrack con named with ⟨m, mismatch⟩ | ⟨runs, _⟩
  · rw [failed, Stage.failed.injEq] at mismatch
    exact ⟨m, mismatch⟩
  · exact absurd failed (runs e)

end ConstFun
