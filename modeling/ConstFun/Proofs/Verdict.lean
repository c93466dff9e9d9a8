import ConstFun.Proofs.LiteralClasses

namespace ConstFun

open TypeGraph

namespace Session

/-- Two kinds are linked. -/
def Conflict (s : Session) : Prop := ∃ h k k', k ≠ k' ∧ s.Holds h k ∧ s.Holds h k'

/-- A literal is linked with a kind that it does not admit. -/
def Misfit (s : Session) : Prop := ∃ l ∈ s.literals, ∃ k, s.Holds l.handle k ∧ k ∉ s.kinds l

/-- The literals of a class without a kind have kinds, but share none. -/
def Disjoint (s : Session) : Prop :=
  ∃ h, (∀ k, ¬s.Holds h k) ∧ (∃ l ∈ s.literals, s.Linked l.handle h ∧ s.kinds l ≠ []) ∧
    ∀ k, ¬s.Shared h k

/-- A literal that admits no kind is in a class whose other literals share a single one. -/
def Forced (s : Session) : Prop := ∃ l ∈ s.literals, s.kinds l = [] ∧ ∃ k, s.Sole l.handle k

/-- The mismatches of a session, each with the place where it is found. -/
inductive Verdict (s : Session) : TypeError → Prop
  | clash {e : TypeError} (code : e.problem.code = ⟨.typ, 10⟩) (conflict : s.Conflict) : Verdict s e
  | unfit {l : TypedLiteral} {k : Kind} {o : Option Span} (agreed : ¬s.Conflict)
      (mem : l ∈ s.literals) (holds : s.Holds l.handle k) (outside : k ∉ s.kinds l)
      (place : ∀ span, l.literal.span = some span → o = some span) : Verdict s ⟨.unfit k, o⟩
  | forced {l : TypedLiteral} {k : Kind} (agreed : ¬s.Conflict) (mem : l ∈ s.literals)
      (none : s.kinds l = []) (sole : s.Sole l.handle k) : Verdict s ⟨.unfit k, l.literal.span⟩
  | disjoint {o : Option Span} (agreed : ¬s.Conflict) (apart : s.Disjoint) :
      Verdict s ⟨.noCommonKind, o⟩

/-- How a run stands to its session when the worklist is empty. -/
structure AtRest (first : Session) (s : Solver) : Prop where
  consistent : s.Consistent
  kinds : ∀ h, s.graph.kind? h = first.graph.kind? h
  roots : ∀ h, first.Linked h (s.graph.root h) ∨
    ∃ k, first.graph.kind? (s.graph.root h) = some k ∧ first.Sole h k
  closed : ∀ a b, first.Linked a b → s.graph.root a = s.graph.root b
  offered : ∀ l ∈ first.literals, ∀ k ∈ first.kinds l, ∃ b ∈ s.bounds (s.graph.root l.handle),
    b.source = l.handle ∧ s.graph.classKind? b.right = some k
  bounds : ∀ r, ∀ b ∈ s.bounds r, ∃ l ∈ first.literals, ∃ k ∈ first.kinds l,
    l.handle = b.source ∧ l.literal.span = b.origin ∧ s.graph.classKind? b.right = some k

theorem Typed.atRest {first : Session} {s : Solver} {solved ahead : List Constraint}
    (laid : Laid first) (typed : Typed first s solved ahead) (con : s.Consistent)
    (covers : ∀ c ∈ solved, c.relation = .equal → s.graph.root c.left = s.graph.root c.right)
    (drained : first.store.worklist.toList <+: solved) : AtRest first s where
  consistent := con
  kinds := typed.kinds
  roots := typed.roots
  closed a b linked := by
    have one : Equates first.store.log.toList ≤ fun a b => s.graph.root a = s.graph.root b := by
      rintro _ _ ⟨c, mem, equal, rfl, rfl⟩
      rw [laid.waiting] at mem
      exact covers c (drained.subset mem) equal
    exact (eq_equivalence.comap s.graph.root).eqvGen_iff.mp (linked.mono one a b)
  offered l hl k hk := by
    obtain ⟨c, mem, offer⟩ := laid.offered l hl k hk
    obtain ⟨b, here, source, right, _⟩ := typed.parked c (drained.subset mem) offer.subtype
    have kind : s.graph.kind? b.right = some k := by
      rw [typed.kinds, right]
      exact offer.right
    refine ⟨b, offer.left ▸ here, source.trans offer.left, ?_⟩
    rw [classKind?, WellFormed.root_of_kind? kind, kind]
  bounds r b mem := by
    obtain ⟨l, hl, k, hk, source, origin, right⟩ := typed.offer_of_bound mem
    have kind : s.graph.kind? b.right = some k := (typed.kinds _).trans right
    refine ⟨l, hl, k, hk, source, origin, ?_⟩
    rw [classKind?, WellFormed.root_of_kind? kind, kind]

namespace AtRest

variable {first : Session} {s : Solver} {key : Handle} {bounds : List PendingBound} {k : Kind}

theorem no_conflict (rest : AtRest first s) : ¬first.Conflict := by
  rintro ⟨h, k, k', differ, ⟨c, kind, linked⟩, ⟨c', kind', linked'⟩⟩
  have same := rest.closed c c' (linked.symm.trans linked')
  rw [← rest.kinds] at kind kind'
  rw [WellFormed.root_of_kind? kind, WellFormed.root_of_kind? kind'] at same
  rw [same, kind'] at kind
  exact differ (Option.some.inj kind).symm

/-- A bound that waits at a class is that of a literal of the class. -/
theorem literal_of_bound (rest : AtRest first s) (kept : s.pending.get? key = some bounds)
    {b : PendingBound} (mem : b ∈ bounds) :
    ∃ l ∈ first.literals, s.graph.root l.handle = key ∧ l.handle = b.source ∧
      l.literal.span = b.origin ∧ ∃ k ∈ first.kinds l, s.graph.classKind? b.right = some k := by
  rw [← Solver.bounds_of_get? kept] at mem
  obtain ⟨l, hl, k, hk, source, origin, kind⟩ := rest.bounds key b mem
  have here : s.graph.root l.handle = key := by
    rw [source]
    exact (rest.consistent.bounds key b mem).2.2
  exact ⟨l, hl, here, source, origin, k, hk, kind⟩

theorem known (rest : AtRest first s) (kept : s.pending.get? key = some bounds) :
    Known s.graph bounds := by
  intro b mem
  obtain ⟨_, _, _, _, _, k, _, kind⟩ := rest.literal_of_bound kept mem
  simp [kind]

theorem admits_iff (laid : Laid first) (rest : AtRest first s)
    (kept : s.pending.get? key = some bounds) {l : TypedLiteral} (hl : l ∈ first.literals)
    (here : s.graph.root l.handle = key) :
    Admits s.graph bounds l.handle k ↔ k ∈ first.kinds l := by
  constructor
  · rintro ⟨b, mem, source, kind⟩
    obtain ⟨l', hl', _, source', _, k', hk', kind'⟩ := rest.literal_of_bound kept mem
    have same : l' = l := laid.eq_of_handle hl' hl (source'.trans source)
    rw [kind', Option.some.injEq] at kind
    rwa [← same, ← kind]
  · intro hk
    obtain ⟨b, mem, source, kind⟩ := rest.offered l hl k hk
    rw [here, Solver.bounds_of_get? kept] at mem
    exact ⟨b, mem, source, kind⟩

/-- A kind is common to the bounds of a class if all its literals that have kinds admit it. -/
theorem common_iff (laid : Laid first) (rest : AtRest first s)
    (kept : s.pending.get? key = some bounds) :
    Common s.graph bounds k ↔ ∀ l ∈ first.literals, s.graph.root l.handle = key →
      first.kinds l ≠ [] → k ∈ first.kinds l := by
  constructor
  · intro common l hl here some_kind
    obtain ⟨k', hk'⟩ := List.exists_mem_of_ne_nil _ some_kind
    obtain ⟨b, mem, source, _⟩ := rest.offered l hl k' hk'
    rw [here, Solver.bounds_of_get? kept] at mem
    rw [← rest.admits_iff laid kept hl here, ← source]
    exact common b mem
  · intro all b mem
    obtain ⟨l, hl, here, source, _, k', hk', _⟩ := rest.literal_of_bound kept mem
    rw [← source, rest.admits_iff laid kept hl here]
    exact all l hl here (List.ne_nil_of_mem hk')

theorem linked_iff (rest : AtRest first s) (top : s.graph.root key = key)
    (isOpen : s.graph.kind? key = none) {h : Handle} :
    first.Linked h key ↔ s.graph.root h = key := by
  constructor
  · intro linked
    rw [rest.closed h key linked, top]
  · intro here
    rcases rest.roots h with linked | ⟨k, kind, _⟩
    · rwa [here] at linked
    · rw [here, ← rest.kinds, isOpen] at kind
      cases kind

theorem not_holds (rest : AtRest first s) (top : s.graph.root key = key)
    (isOpen : s.graph.kind? key = none) (k : Kind) : ¬first.Holds key k := by
  rintro ⟨c, kind, linked⟩
  rw [← rest.kinds] at kind
  have same := rest.closed key c linked
  rw [top, WellFormed.root_of_kind? kind] at same
  rw [same, kind] at isOpen
  cases isOpen

theorem common_iff_shared (laid : Laid first) (rest : AtRest first s)
    (kept : s.pending.get? key = some bounds) (isOpen : s.graph.kind? key = none) :
    Common s.graph bounds k ↔ first.Shared key k := by
  have top := WellFormed.root_of_root (rest.consistent.key_root kept).2
  rw [rest.common_iff laid kept]
  unfold Shared
  simp only [rest.linked_iff top isOpen]

/-- Narrowing gives a class the only kind that its literals share. -/
theorem sole_of_narrowed (laid : Laid first) (rest : AtRest first s)
    (kept : s.pending.get? key = some bounds) (isOpen : s.graph.kind? key = none)
    (only : ∀ k', Common s.graph bounds k' ↔ k' = k) : first.Sole key k := by
  have top := WellFormed.root_of_root (rest.consistent.key_root kept).2
  refine ⟨rest.not_holds top isOpen, fun k' => ?_⟩
  rw [← rest.common_iff_shared laid kept isOpen]
  exact only k'

/-- A literal without a kind that is refused was linked with a kind, or narrowed. -/
theorem refused (rest : AtRest first s) {l : TypedLiteral} (hl : l ∈ first.literals)
    (none : first.kinds l = []) (resolved : s.graph.classKind? l.handle = some k) :
    Verdict first ⟨.unfit k, l.literal.span⟩ := by
  have kind : first.graph.kind? (s.graph.root l.handle) = some k := by
    rw [← rest.kinds]
    exact resolved
  rcases rest.roots l.handle with linked | ⟨k', kind', sole⟩
  · exact .unfit rest.no_conflict hl ⟨_, kind, linked⟩ (by simp [none]) fun _ eq => eq
  · rw [kind, Option.some.injEq] at kind'
    exact .forced rest.no_conflict hl none (kind' ▸ sole)

/-- A class that cannot be settled has a literal outside its kind, or literals that share none. -/
theorem misfit (laid : Laid first) (rest : AtRest first s)
    (kept : s.pending.get? key = some bounds) {e : TypeError} (misfits : Misfits key bounds s e) :
    Verdict first e := by
  cases misfits with
  | @unfit k b known resolved mem outside =>
    obtain ⟨l, hl, here, source, origin, k', hk', _⟩ := rest.literal_of_bound kept mem
    rw [← source, rest.admits_iff laid kept hl here] at outside
    have kind : first.graph.kind? (s.graph.root l.handle) = some k := by
      rw [← rest.kinds, here]
      exact resolved
    rcases rest.roots l.handle with linked | ⟨k₁, kind', sole⟩
    · refine .unfit rest.no_conflict hl ⟨_, kind, linked⟩ outside fun span eq => ?_
      simp [← origin, eq]
    · -- a narrowed class has a kind that all its literals admit
      rw [kind, Option.some.injEq] at kind'
      have shared := (sole.2 k).mpr kind'
      exact absurd (shared l hl (.refl first l.handle) (List.ne_nil_of_mem hk')) outside
  | disjoint known isOpen empty =>
    have top := WellFormed.root_of_root (rest.consistent.key_root kept).2
    obtain ⟨b, mem⟩ := List.exists_mem_of_ne_nil _ (rest.consistent.nonempty key bounds kept)
    obtain ⟨l, hl, here, _, _, k', hk', _⟩ := rest.literal_of_bound kept mem
    refine .disjoint rest.no_conflict ⟨key, rest.not_holds top isOpen, ⟨l, hl, ?_, ?_⟩, ?_⟩
    · exact (rest.linked_iff top isOpen).mpr here
    · exact List.ne_nil_of_mem hk'
    · intro k shared
      exact empty k ((rest.common_iff_shared laid kept isOpen).mpr shared)

end AtRest

theorem Typed.settle {first : Session} {s t : Solver} {solved : List Constraint} {root : Handle}
    {bounds : List PendingBound} {now : Bool} (laid : Laid first)
    (typed : Typed first s solved s.store.worklist.toList) (rest : AtRest first s)
    (kept : s.pending.get? root = some bounds) (settled : Settles root bounds s now t) :
    Typed first t solved t.store.worklist.toList := by
  have same := settled.compresses rest.consistent.forest
  have pending := settled.pending_eq
  cases settled with
  | skipped _ | waiting _ _ | fitting _ _ _ _ | ambiguous _ _ _ _ _ _ =>
    exact typed.keep same pending
  | @narrowed k target g j top known isOpen only kind _ =>
    have sole := rest.sole_of_narrowed laid kept isOpen only
    have emitted : Emits s _ [⟨root, .equal, target, bounds.head?.bind (·.origin)⟩] :=
      .equal g j root target _
    rw [emitted.worklist, ← List.append_nil solved]
    refine advance (show Typed first s solved ([] ++ s.store.worklist.toList) from typed) same
      pending (by simp) fun e here => ?_
    rw [List.mem_singleton.mp here]
    exact ⟨rfl, fun _ => .inr ⟨k, (rest.kinds _).symm.trans kind, sole⟩⟩

/-- A mismatch of two kinds comes from an equality that links them. -/
theorem Typed.conflict_of_clash {first : Session} {s : Solver} {solved rest : List Constraint}
    {c : Constraint} (laid : Laid first) (typed : Typed first s solved (c :: rest)) {k k' : Kind}
    (differ : k ≠ k') (left : s.graph.kind? c.left = some k)
    (right : s.graph.kind? c.right = some k') : c.relation = .equal ∧ first.Conflict := by
  have equal : c.relation = .equal := by
    by_contra sub
    rw [typed.kind_of_offer laid (by simp) sub] at left
    cases left
  rw [typed.kinds] at left right
  refine ⟨equal, ?_⟩
  rcases typed.edges c (by simp) equal with linked | ⟨k₂, _, sole⟩
  · exact ⟨c.left, k, k', differ, ⟨c.left, left, .refl first _⟩, ⟨c.right, right, linked⟩⟩
  · exact absurd (.refl first _) (sole.not_linked left)

theorem Typed.clash {first : Session} {s : Solver} {solved rest : List Constraint}
    {c : Constraint} (laid : Laid first) (typed : Typed first s solved (c :: rest)) {k k' : Kind}
    (differ : k ≠ k') (left : s.graph.kind? c.left = some k)
    (right : s.graph.kind? c.right = some k') : Verdict first ⟨c.clash k k', c.origin⟩ := by
  obtain ⟨equal, conflict⟩ := typed.conflict_of_clash laid differ left right
  exact .clash (by simp [Constraint.clash, equal, TypeProblem.code]) conflict

end Session

/-- A run that goes on stands to its session as its constraints say, and a mismatch that ends it is
one of the session. -/
def Point.Sound (first : Session) (p : Point) : Prop :=
  match p.stage with
  | .failed (.mismatch e) => first.Verdict e
  | .failed (.fault _) => True
  | _ => first.Typed p.solver p.solved p.ahead

section Runs

variable {narrowing : Bool} {first : Session} {p q : Point}

theorem Effect.sound (laid : first.Laid) (effect : Effect narrowing p q) (con : p.Consistent)
    (covers : p.Covers) (drained : p.Drained first.toSolver) (listed : p.Listed first.toSolver)
    (sound : p.Sound first) : q.Sound first := by
  have wf := con.solver.forest
  cases effect with
  | @take s r done _ =>
    have typed : first.Typed s done s.store.worklist.toList := sound
    change first.Typed _ done (s.store.worklist.toList ++ [])
    rw [List.append_nil]
    exact typed.keep (.refl wf) rfl
  | @review s r done none_left _ | @rest s r done none_left _ =>
    have typed : first.Typed s done s.store.worklist.toList := sound
    have empty : s.store.worklist.toList = [] := by simpa using Array.isEmpty_iff.mp none_left
    rw [empty] at typed
    exact typed.keep (.refl wf) rfl
  | solve _ solved => exact Session.Typed.solve laid con.solver sound solved
  | clash differ left right => exact Session.Typed.clash laid sound differ left right
  | unknown _ => exact trivial
  | again => exact sound
  | @check s r done literal origin ls g same _ =>
    have typed : first.Typed s done s.store.worklist.toList := sound
    exact typed.keep same rfl
  | @refuse s r done literal origin ls g k same resolved =>
    have typed : first.Typed s done s.store.worklist.toList := sound
    have rest := typed.atRest laid con.solver covers drained
    obtain ⟨l, hl, none, eq⟩ := (laid.refused _).mp (listed.2 _ rfl (literal, origin) (by simp))
    cases eq
    exact rest.refused hl none resolved
  | checked => exact sound
  | @settle s t r done root bounds es before now kept settled =>
    have typed : first.Typed s done s.store.worklist.toList := sound
    exact typed.settle laid (typed.atRest laid con.solver covers drained) kept settled
  | @unsettled s r done root bounds es before g e kept misfit _ =>
    have typed : first.Typed s done s.store.worklist.toList := sound
    exact (typed.atRest laid con.solver covers drained).misfit laid kept misfit
  | @settled s r done emitted => cases emitted <;> exact sound

theorem Passes.sound (laid : first.Laid) (con : first.toSolver.Consistent)
    (passes : Passes narrowing (Point.start first.toSolver) p) : p.Sound first := by
  refine passes.induct_reached con.start laid.typed ?_
  intro p q path effect sound
  exact effect.sound laid (path.consistent con.start) (path.covers con)
    (path.drained con laid.named) (path.listed con) sound

end Runs

end ConstFun
