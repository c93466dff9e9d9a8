import ConstFun.Proofs.Order

namespace ConstFun

open TypeGraph

/-- Some equality among the constraints has these sides. -/
def Equates (cs : List Constraint) (a b : Handle) : Prop :=
  ∃ c ∈ cs, c.relation = .equal ∧ c.left = a ∧ c.right = b

theorem Equates.append {cs cs' : List Constraint} {a b : Handle} (equates : Equates cs a b) :
    Equates (cs ++ cs') a b := by
  obtain ⟨c, mem, sides⟩ := equates
  exact ⟨c, List.mem_append.mpr (.inl mem), sides⟩

theorem Solves.coarsens {c : Constraint} {s t : Solver} (wf : s.graph.WellFormed)
    (solved : Solves c s t) {a b : Handle} (same : s.graph.root a = s.graph.root b) :
    t.graph.root a = t.graph.root b := by
  rcases solved.graph_cases wf with compress | ⟨_, _, _, _, _, _, _, merges⟩
  · rw [compress.root_eq, compress.root_eq, same]
  · rw [merges.root_eq, merges.root_eq, same]

/-- An equality that is solved joins its sides, or both are resolved and it leaves an equality of
their roots. -/
theorem Solves.joins {c : Constraint} {s t : Solver} (wf : s.graph.WellFormed)
    (solved : Solves c s t) (equal : c.relation = .equal) :
    t.graph.root c.left = t.graph.root c.right ∨
      (∃ k k', s.graph.classKind? c.left = some k ∧ s.graph.classKind? c.right = some k') ∧
        Equates t.store.worklist.toList (s.graph.root c.left) (s.graph.root c.right) := by
  cases solved with
  | equated sub _ _ _ | parked sub _ _ _ _ | lifted sub _ _ _ _ | collapsed sub _ _ _ _
  | lowered sub _ _ _ _ => simp [equal] at sub
  | agreed left right => exact .inl (congrArg _ (wf.concrete_unique _ _ _ left right))
  | @joined g j _ _ one same =>
    left
    change g.root c.left = g.root c.right
    rw [same.root_eq, same.root_eq, one]
  | @merged child target g j _ _ sides apart _ merges =>
    left
    change g.root c.left = g.root c.right
    rw [merges.root_eq, merges.root_eq]
    rcases sides with ⟨rfl, rfl⟩ | ⟨rfl, rfl, _⟩
    · rw [if_pos rfl, if_neg apart.symm, wf.root_root]
    · rw [if_pos rfl, if_neg apart.symm, wf.root_root]
  | @deferred k k' g j _ _ _ left right same =>
    refine .inr ⟨⟨k, k', left, right⟩, ?_⟩
    refine ⟨⟨s.graph.root c.left, .equal, s.graph.root c.right, c.origin⟩, ?_, rfl, rfl, rfl⟩
    rw [(Emits.equal g j _ _ _).worklist]
    simp

/-- Two handles of one class, or the two sides of an equality that is still ahead. -/
def Point.Near (p : Point) (a b : Handle) : Prop :=
  p.solver.graph.root a = p.solver.graph.root b ∨ Equates p.ahead a b

/-- The sides of every equality solved so far are joined: by the classes alone when the worklist
was empty, else by the classes and the equalities ahead. -/
def Point.Covers (p : Point) : Prop :=
  match p.stage with
  | .checking _ | .settling _ _ | .finished => ∀ c ∈ p.solved, c.relation = .equal →
    p.solver.graph.root c.left = p.solver.graph.root c.right
  | .failed _ => True
  | _ => ∀ c ∈ p.solved, c.relation = .equal → Relation.EqvGen p.Near c.left c.right

/-- With nothing ahead, what is near is in one class. -/
theorem Point.root_eq_of_near {p : Point} (nothing : p.ahead = []) {a b : Handle}
    (path : Relation.EqvGen p.Near a b) : p.solver.graph.root a = p.solver.graph.root b := by
  have one : p.Near ≤ fun a b => p.solver.graph.root a = p.solver.graph.root b := by
    rintro a b (same | ⟨c, mem, _⟩)
    · exact same
    · rw [nothing] at mem
      cases mem
  exact (eq_equivalence.comap p.solver.graph.root).eqvGen_iff.mp (path.mono one a b)

theorem Solves.ahead_kept {c c' : Constraint} {s t : Solver} {cs done done' : List Constraint}
    {r : Nat} (con : s.Consistent) (named : c.Names s.graph) (solved : Solves c s t)
    (mem : c' ∈ Point.ahead ⟨.solving (c :: cs), s, r, done⟩) :
    c' = c ∨ c' ∈ Point.ahead ⟨.solving cs, t, r, done'⟩ := by
  obtain ⟨new, emitted, _⟩ := solved.emits con named
  simp only [Point.ahead, emitted.worklist, List.mem_append, List.cons_append,
    List.mem_cons] at mem ⊢
  tauto

theorem Solves.near {c : Constraint} {s t : Solver} {cs done done' : List Constraint} {r : Nat}
    (con : s.Consistent) (named : c.Names s.graph) (solved : Solves c s t) {a b : Handle}
    (near : Point.Near ⟨.solving (c :: cs), s, r, done⟩ a b) :
    Relation.EqvGen (Point.Near ⟨.solving cs, t, r, done'⟩) a b := by
  have wf := con.forest
  rcases near with same | ⟨c', mem, equal, rfl, rfl⟩
  · exact .rel _ _ (.inl (solved.coarsens wf same))
  rcases solved.ahead_kept con named mem with rfl | later
  · rcases solved.joins wf equal with one | ⟨_, e, waits, isEqual, left, right⟩
    · exact .rel _ _ (.inl one)
    · -- the path goes over the two roots
      have toRoot : ∀ h, t.graph.root h = t.graph.root (s.graph.root h) := fun h =>
        solved.coarsens wf (wf.root_root h).symm
      have edge : Point.Near ⟨.solving cs, t, r, done'⟩ (s.graph.root c'.left)
          (s.graph.root c'.right) :=
        .inr ⟨e, by simp [Point.ahead, waits], isEqual, left, right⟩
      exact .trans _ _ _ (.rel _ _ (.inl (toRoot _)))
        (.trans _ _ _ (.rel _ _ edge) (.symm _ _ (.rel _ _ (.inl (toRoot _)))))
  · exact .rel _ _ (.inr ⟨c', later, equal, rfl, rfl⟩)

theorem Effect.covers {narrowing : Bool} {p q : Point} (effect : Effect narrowing p q)
    (con : p.Consistent) (covers : p.Covers) : q.Covers := by
  cases effect with
  | @take s r done some_left =>
    intro c mem equal
    refine Relation.EqvGen.mono ?_ _ _ (covers c mem equal)
    rintro a b (same | ⟨e, ahead, edge⟩)
    · exact .inl same
    · exact .inr ⟨e, List.mem_append.mpr (.inl ahead), edge⟩
  | @review s r done none_left _ | @rest s r done none_left _ =>
    intro c mem equal
    have nothing : Point.ahead ⟨.draining, s, r, done⟩ = [] := by
      simpa [Point.ahead] using Array.isEmpty_iff.mp none_left
    exact Point.root_eq_of_near nothing (covers c mem equal)
  | @solve s t r done cs c named solved =>
    intro c' mem equal
    have near : Point.Near ⟨.solving (c :: cs), s, r, done⟩ ≤
        Relation.EqvGen (Point.Near ⟨.solving cs, t, r, done ++ [c]⟩) :=
      fun a b => solved.near con.solver named
    rcases List.mem_append.mp mem with mem | mem
    · exact Relation.EqvGen.eqvGen_le near _ _ (covers c' mem equal)
    · rw [List.mem_singleton.mp mem] at equal ⊢
      exact near _ _ (.inr ⟨c, by simp [Point.ahead], equal, rfl, rfl⟩)
  | clash _ _ _ | unknown _ | refuse _ _ | unsettled _ _ _ => exact trivial
  | again => exact covers
  | check same _ =>
    intro c mem equal
    exact (same.root_eq _).trans ((covers c mem equal).trans (same.root_eq _).symm)
  | checked => exact covers
  | settle _ settled =>
    have same := settled.compresses con.solver.forest
    intro c mem equal
    exact (same.root_eq _).trans ((covers c mem equal).trans (same.root_eq _).symm)
  | @settled s r done emitted =>
    cases emitted with
    | true => exact fun c mem equal => .rel _ _ (.inl (covers c mem equal))
    | false => exact covers

theorem Passes.covers {narrowing : Bool} {s : Solver} {p : Point}
    (passes : Passes narrowing (Point.start s) p) (con : s.Consistent) : p.Covers :=
  passes.induct con.start (by simp [Point.Covers, Point.start]) fun con effect => effect.covers con

/-- While a run narrows and at its end, the constraints that were waiting at first are solved. -/
def Point.Drained (first : Solver) (p : Point) : Prop :=
  match p.stage with
  | .checking _ | .settling _ _ | .finished => first.store.worklist.toList <+: p.solved
  | _ => True

theorem Effect.drained {narrowing : Bool} {first : Solver} {p q : Point}
    (effect : Effect narrowing p q) (track : p.OnTrack first) (drained : p.Drained first) :
    q.Drained first := by
  cases effect with
  | @review s r done none_left _ | @rest s r done none_left _ =>
    rcases track with ⟨e, failed⟩ | ⟨_, later, _, order, _⟩
    · cases failed
    · have nothing : Point.ahead ⟨.draining, s, r, done⟩ = [] := by
        simpa [Point.ahead] using Array.isEmpty_iff.mp none_left
      rw [nothing, List.append_nil] at order
      exact ⟨later, order.symm⟩
  | check _ _ | checked | settle _ _ => exact drained
  | @settled s r done emitted =>
    cases emitted with
    | true => exact trivial
    | false => exact drained
  | _ => exact trivial

theorem Passes.drained {narrowing : Bool} {first : Solver} {p : Point}
    (passes : Passes narrowing (Point.start first) p) (con : first.Consistent)
    (named : ∀ c ∈ first.store.worklist.toList, c.Names first.graph) : p.Drained first := by
  have both : p.OnTrack first ∧ p.Drained first := by
    refine passes.induct (I := fun p => p.OnTrack first ∧ p.Drained first) con.start
      ⟨Solver.onTrack_start named, trivial⟩ ?_
    rintro p q con effect ⟨track, drained⟩
    exact ⟨effect.onTrack con track, effect.drained track drained⟩
  exact both.2

/-- The kind of a resolved class is common to its sources, and an open class has two such kinds,
unless a bound is still unknown. -/
def Settled (g : TypeGraph) (root : Handle) (bounds : List PendingBound) : Prop :=
  Known g bounds → (∀ k, g.kind? root = some k → Common g bounds k) ∧
    (g.kind? root = none → ∃ k k', k ≠ k' ∧ Common g bounds k ∧ Common g bounds k')

theorem TypeGraph.Compresses.settled_iff {g g' : TypeGraph} (same : Compresses g g')
    {root : Handle} {bounds : List PendingBound} :
    Settled g' root bounds ↔ Settled g root bounds := by
  simp only [Settled, Known, Common, Admits, same.classKind_eq, same.kind_eq]

theorem Settles.settled {root : Handle} {bounds : List PendingBound} {s t : Solver}
    (con : s.Consistent) (kept : s.pending.get? root = some bounds)
    (settles : Settles root bounds s false t) : Settled s.graph root bounds := by
  cases settles with
  | skipped linked => exact absurd (con.key_root kept).2 linked
  | waiting unknown _ => exact fun known => absurd known unknown
  | fitting _ resolved common _ =>
    intro _
    refine ⟨fun k' kind => ?_, fun unresolved => ?_⟩
    · rw [resolved] at kind
      cases kind
      exact common
    · rw [resolved] at unresolved
      cases unresolved
  | ambiguous _ unresolved differ first second _ =>
    intro _
    refine ⟨fun k' kind => ?_, fun _ => ⟨_, _, differ, first, second⟩⟩
    rw [unresolved] at kind
    cases kind

/-- What narrowing has found so far: the literals that are not ahead have no kind, and the classes
that are not ahead are settled, unless one was narrowed. -/
def Point.Reviewed (narrowing : Bool) (p : Point) : Prop :=
  match p.stage with
  | .checking ls => ∀ l ∈ p.solver.unrepresentable.entries,
    l ∈ ls ∨ p.solver.graph.classKind? l.1 = none
  | .settling es false =>
    (∀ l ∈ p.solver.unrepresentable.entries, p.solver.graph.classKind? l.1 = none) ∧
      ∀ e ∈ p.solver.pending.entries, e ∈ es ∨ Settled p.solver.graph e.1 e.2
  | .finished => narrowing = true →
    (∀ l ∈ p.solver.unrepresentable.entries, p.solver.graph.classKind? l.1 = none) ∧
      ∀ e ∈ p.solver.pending.entries, Settled p.solver.graph e.1 e.2
  | _ => True

theorem Solves.literals_eq {c : Constraint} {s t : Solver} (solved : Solves c s t) :
    t.unrepresentable = s.unrepresentable := by
  cases solved <;> rfl

theorem Settles.literals_eq {root : Handle} {bounds : List PendingBound} {s t : Solver}
    {emitted : Bool} (settled : Settles root bounds s emitted t) :
    t.unrepresentable = s.unrepresentable := by
  cases settled <;> rfl

/-- The literals without a kind stay the same, and those to be checked are among them. -/
def Point.Listed (first : Solver) (p : Point) : Prop :=
  p.solver.unrepresentable = first.unrepresentable ∧
    ∀ ls, p.stage = .checking ls → ∀ l ∈ ls, l ∈ first.unrepresentable.entries

theorem Effect.listed {narrowing : Bool} {first : Solver} {p q : Point}
    (effect : Effect narrowing p q) (listed : p.Listed first) : q.Listed first := by
  obtain ⟨same, ahead⟩ := listed
  cases effect with
  | review _ _ =>
    refine ⟨same, ?_⟩
    rintro _ ⟨⟩ l mem
    exact same ▸ mem
  | solve _ solved => exact ⟨solved.literals_eq.trans same, by simp⟩
  | check _ _ =>
    refine ⟨same, ?_⟩
    rintro _ ⟨⟩ l mem
    exact ahead _ rfl l (by simp [mem])
  | settle _ settled => exact ⟨settled.literals_eq.trans same, by simp⟩
  | @settled s r done emitted => cases emitted <;> exact ⟨same, by simp⟩
  | _ => exact ⟨same, by simp⟩

theorem Passes.listed {narrowing : Bool} {s : Solver} {p : Point}
    (passes : Passes narrowing (Point.start s) p) (con : s.Consistent) : p.Listed s :=
  passes.induct con.start ⟨rfl, by simp [Point.start]⟩ fun _ effect => effect.listed

theorem Effect.reviewed {narrowing : Bool} {p q : Point} (effect : Effect narrowing p q)
    (con : p.Consistent) (reviewed : p.Reviewed narrowing) : q.Reviewed narrowing := by
  cases effect with
  | review _ _ => exact fun l mem => .inl mem
  | rest _ off => exact fun on => absurd (off.symm.trans on) (by simp)
  | @check s r done literal origin ls g same unresolved =>
    intro l mem
    change _ ∨ g.classKind? l.1 = none
    rw [same.classKind_eq]
    rcases reviewed l mem with ahead | none
    · rcases List.mem_cons.mp ahead with rfl | later
      · exact .inr unresolved
      · exact .inl later
    · exact .inr none
  | checked =>
    exact ⟨fun l mem => (reviewed l mem).resolve_left (by simp), fun e mem => .inl mem⟩
  | @settle s t r done root bounds es before now kept settled =>
    have same := settled.compresses con.solver.forest
    cases now with
    | true => exact trivial
    | false =>
      cases before with
      | true => exact trivial
      | false =>
        obtain ⟨literals, classes⟩ := reviewed
        constructor
        · intro l mem
          rw [settled.literals_eq] at mem
          rw [same.classKind_eq]
          exact literals l mem
        · intro e mem
          rw [settled.pending_eq] at mem
          rw [same.settled_iff]
          rcases classes e mem with ahead | done
          · rcases List.mem_cons.mp ahead with rfl | later
            · exact .inr (settled.settled con.solver kept)
            · exact .inl later
          · exact .inr done
  | @settled s r done emitted =>
    cases emitted with
    | true => exact trivial
    | false =>
      obtain ⟨literals, classes⟩ := reviewed
      exact fun _ => ⟨literals, fun e mem => (classes e mem).resolve_left (by simp)⟩
  | _ => exact trivial

theorem Passes.reviewed {narrowing : Bool} {s : Solver} {p : Point}
    (passes : Passes narrowing (Point.start s) p) (con : s.Consistent) : p.Reviewed narrowing :=
  passes.induct con.start trivial fun con effect => effect.reviewed con

end ConstFun
