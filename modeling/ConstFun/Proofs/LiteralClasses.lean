import ConstFun.Proofs.Fixpoint
import ConstFun.Proofs.Literals

namespace ConstFun

open TypeGraph

namespace Session

/-- The equalities of the session link two handles. -/
def Linked (s : Session) : Handle → Handle → Prop :=
  Relation.EqvGen (Equates s.store.log.toList)

/-- A handle is linked with a kind. -/
def Holds (s : Session) (h : Handle) (k : Kind) : Prop :=
  ∃ c, s.graph.kind? c = some k ∧ s.Linked h c

/-- Every literal that is linked with a handle admits the kind, unless it admits none. -/
def Shared (s : Session) (h : Handle) (k : Kind) : Prop :=
  ∀ l ∈ s.literals, s.Linked l.handle h → s.kinds l ≠ [] → k ∈ s.kinds l

/-- A handle is linked with no kind, and its literals share this kind alone. -/
def Sole (s : Session) (h : Handle) (k : Kind) : Prop :=
  (∀ k', ¬s.Holds h k') ∧ ∀ k', s.Shared h k' ↔ k' = k

section Links

variable {s : Session} {a b c : Handle} {k k' : Kind}

theorem Linked.refl (s : Session) (h : Handle) : s.Linked h h := Relation.EqvGen.refl h

theorem Linked.symm (linked : s.Linked a b) : s.Linked b a := Relation.EqvGen.symm _ _ linked

theorem Linked.trans (first : s.Linked a b) (second : s.Linked b c) : s.Linked a c :=
  Relation.EqvGen.trans _ _ _ first second

theorem Holds.of_linked (linked : s.Linked a b) (holds : s.Holds b k) : s.Holds a k := by
  obtain ⟨c, kind, rest⟩ := holds
  exact ⟨c, kind, linked.trans rest⟩

theorem Shared.of_linked (linked : s.Linked a b) (shared : s.Shared b k) : s.Shared a k :=
  fun l mem near => shared l mem (near.trans linked)

theorem Sole.of_linked (linked : s.Linked a b) (sole : s.Sole b k) : s.Sole a k :=
  ⟨fun k' holds => sole.1 k' (holds.of_linked linked.symm),
    fun k' => Iff.trans ⟨.of_linked linked.symm, .of_linked linked⟩ (sole.2 k')⟩

theorem Sole.unique (first : s.Sole a k) (second : s.Sole a k') : k = k' :=
  (second.2 k).mp ((first.2 k).mpr rfl)

theorem Sole.not_linked (sole : s.Sole a k) (kind : s.graph.kind? b = some k') : ¬s.Linked a b :=
  fun linked => sole.1 k' ⟨b, kind, linked⟩

end Links

/-- An equality links its sides, or it gives the only kind of a class to that class. -/
def Edge (s : Session) (c : Constraint) : Prop :=
  c.relation = .equal → s.Linked c.left c.right ∨
    ∃ k, s.graph.kind? c.right = some k ∧ s.Sole c.left k

/-- The constraints of a run in their order: its subtype constraints offer kinds to literals, each
under its own color, and ahead of the equalities that name the literal. -/
structure Queue (first : Session) (solved ahead : List Constraint) : Prop where
  offers : ∀ c ∈ solved ++ ahead, c.relation ≠ .equal →
    ∃ l ∈ first.literals, ∃ k ∈ first.kinds l, Offer first.graph l k c
  order : ahead.Pairwise fun a b => a.relation = .equal → b.relation ≠ .equal →
    a.left ≠ b.left ∧ a.right ≠ b.left
  colors : (solved ++ ahead).Pairwise fun a b => a.relation ≠ .equal → a.relation ≠ b.relation

theorem Queue.advance {first : Session} {solved rest new : List Constraint}
    (before : List Constraint) (queue : Queue first solved (before ++ rest))
    (equal : ∀ c ∈ new, c.relation = .equal) :
    Queue first (solved ++ before) (rest ++ new) := by
  have all : solved ++ before ++ (rest ++ new) = solved ++ (before ++ rest) ++ new := by simp
  refine ⟨fun c mem sub => ?_, ?_, ?_⟩
  · rw [all] at mem
    rcases List.mem_append.mp mem with old | mem
    · exact queue.offers c old sub
    · exact absurd (equal c mem) sub
  · refine List.pairwise_append.mpr ⟨(List.pairwise_append.mp queue.order).2.1, ?_, ?_⟩
    · refine List.pairwise_of_forall_mem_list fun a _ b mem _ sub => absurd (equal b mem) sub
    · exact fun a _ b mem _ sub => absurd (equal b mem) sub
  · rw [all]
    refine List.pairwise_append.mpr ⟨queue.colors, ?_, ?_⟩
    · refine List.pairwise_of_forall_mem_list fun a mem b _ sub => absurd (equal a mem) sub
    · intro a _ b mem sub
      rw [equal b mem]
      exact sub

/-- How a run stands to the session it started from. -/
structure Typed (first : Session) (s : Solver) (solved ahead : List Constraint) : Prop where
  kinds : ∀ h, s.graph.kind? h = first.graph.kind? h
  roots : ∀ h, first.Linked h (s.graph.root h) ∨
    ∃ k, first.graph.kind? (s.graph.root h) = some k ∧ first.Sole h k
  edges : ∀ c ∈ ahead, first.Edge c
  queue : Queue first solved ahead
  alone : ∀ c ∈ ahead, c.relation ≠ .equal → ∀ h, s.graph.root h = s.graph.root c.left → h = c.left
  parked : ∀ c ∈ solved, c.relation ≠ .equal → ∃ b ∈ s.bounds (s.graph.root c.left),
    b.source = c.left ∧ b.right = c.right ∧ b.origin = c.origin
  bounds : ∀ r, ∀ b ∈ s.bounds r, ∃ c ∈ solved, c.relation = .subtype b.color ∧
    c.left = b.source ∧ c.right = b.right ∧ c.origin = b.origin

theorem Laid.typed {first : Session} (laid : Laid first) :
    Typed first first.toSolver [] first.store.worklist.toList where
  kinds _ := rfl
  roots h := by
    rw [WellFormed.root_of_root (laid.unlinked h)]
    exact .inl (.refl first h)
  edges c mem equal := by
    refine .inl (Relation.EqvGen.rel _ _ ⟨c, ?_, equal, rfl, rfl⟩)
    rw [laid.waiting]
    exact mem
  queue := ⟨laid.offers, laid.order, laid.colors⟩
  alone c _ _ h same := by
    rwa [WellFormed.root_of_root (laid.unlinked h),
      WellFormed.root_of_root (laid.unlinked c.left)] at same
  parked := by simp
  bounds r b mem := by simp [Solver.bounds, laid.pending, Table.get?] at mem

namespace Typed

variable {first : Session} {s t : Solver} {solved ahead rest : List Constraint} {c : Constraint}

theorem linked_of_open (typed : Typed first s solved ahead) {h : Handle}
    (isOpen : s.graph.kind? (s.graph.root h) = none) : first.Linked h (s.graph.root h) := by
  rcases typed.roots h with linked | ⟨k, kind, _⟩
  · exact linked
  · rw [typed.kinds, kind] at isOpen
    cases isOpen

/-- Solving equalities that merge nothing, and emitting edges. -/
theorem advance {before new : List Constraint} (typed : Typed first s solved (before ++ rest))
    (same : Compresses s.graph t.graph) (pending : t.pending = s.pending)
    (equalities : ∀ c ∈ before, c.relation = .equal)
    (edges : ∀ c ∈ new, c.relation = .equal ∧ first.Edge c) :
    Typed first t (solved ++ before) (rest ++ new) where
  kinds h := (same.kind_eq h).trans (typed.kinds h)
  roots h := by
    rw [same.root_eq]
    exact typed.roots h
  edges c mem := by
    rcases List.mem_append.mp mem with old | mem
    · exact typed.edges c (List.mem_append.mpr (.inr old))
    · exact (edges c mem).2
  queue := typed.queue.advance before fun c mem => (edges c mem).1
  alone c mem sub h := by
    rw [same.root_eq, same.root_eq]
    rcases List.mem_append.mp mem with old | mem
    · exact typed.alone c (List.mem_append.mpr (.inr old)) sub h
    · exact absurd (edges c mem).1 sub
  parked c mem sub := by
    rcases List.mem_append.mp mem with old | mem
    · unfold Solver.bounds
      rw [same.root_eq, pending]
      exact typed.parked c old sub
    · exact absurd (equalities c mem) sub
  bounds r b mem := by
    unfold Solver.bounds at mem
    rw [pending] at mem
    obtain ⟨c, old, rest⟩ := typed.bounds r b mem
    exact ⟨c, List.mem_append.mpr (.inl old), rest⟩

/-- What is ahead may be listed anew. -/
theorem keep (typed : Typed first s solved ahead) (same : Compresses s.graph t.graph)
    (pending : t.pending = s.pending) : Typed first t solved ahead := by
  have none : ∀ c ∈ ([] : List Constraint), c.relation = .equal ∧ first.Edge c := by simp
  have next : Typed first t (solved ++ []) (ahead ++ []) :=
    advance (show Typed first s solved ([] ++ ahead) from typed) same pending (by simp) none
  rwa [List.append_nil, List.append_nil] at next

/-- A literal that still waits for an offer is an open class of its own. -/
theorem root_of_ahead (typed : Typed first s solved ahead) (wf : s.graph.WellFormed)
    (mem : c ∈ ahead) (sub : c.relation ≠ .equal) : s.graph.root c.left = c.left :=
  typed.alone c mem sub _ (wf.root_root _)

/-- Kinds are offered to variables only. -/
theorem kind_of_offer (typed : Typed first s solved ahead) (laid : Laid first) (mem : c ∈ ahead)
    (sub : c.relation ≠ .equal) : s.graph.kind? c.left = none := by
  obtain ⟨l, hl, _, _, offer⟩ := typed.queue.offers c (List.mem_append.mpr (.inr mem)) sub
  rw [typed.kinds, offer.left]
  exact (laid.isVariable l hl).2

theorem fresh_color (typed : Typed first s solved (c :: rest)) {color : Int}
    (sub : c.relation = .subtype color) {r : Handle} {b : PendingBound} (mem : b ∈ s.bounds r) :
    b.color ≠ color := by
  intro eq
  obtain ⟨c', old, relation, _⟩ := typed.bounds r b mem
  have apart := (List.pairwise_append.mp typed.queue.colors).2.2 c' old c (by simp)
  rw [relation, sub, eq] at apart
  exact apart (by simp) rfl

theorem park (typed : Typed first s solved (c :: rest)) {color : Int}
    (sub : c.relation = .subtype color) {g : TypeGraph} {j : Array Event}
    (same : Compresses s.graph g) :
    Typed first ((s.withGraph g j).park (s.graph.root c.left) ⟨color, c.right, c.left, c.origin⟩)
      (solved ++ [c]) rest := by
  have queue : Queue first (solved ++ [c]) (rest ++ []) :=
    Queue.advance [c] typed.queue (by simp)
  rw [List.append_nil] at queue
  have graph : ((s.withGraph g j).park (s.graph.root c.left)
      ⟨color, c.right, c.left, c.origin⟩).graph = g := rfl
  have bounds : ∀ r, ((s.withGraph g j).park (s.graph.root c.left)
      ⟨color, c.right, c.left, c.origin⟩).bounds r =
      if r = s.graph.root c.left then
        s.bounds (s.graph.root c.left) ++ [⟨color, c.right, c.left, c.origin⟩] else s.bounds r :=
    fun r => Solver.bounds_park (s.withGraph g j) _ r _
  refine ⟨?_, ?_, fun c' mem => typed.edges c' (by simp [mem]), queue, ?_, ?_, ?_⟩
  · exact fun h => (same.kind_eq h).trans (typed.kinds h)
  · intro h
    rw [graph, same.root_eq]
    exact typed.roots h
  · intro c' mem sub' h
    rw [graph, same.root_eq, same.root_eq]
    exact typed.alone c' (by simp [mem]) sub' h
  · intro c' mem sub'
    rw [graph, same.root_eq, bounds]
    rcases List.mem_append.mp mem with old | mem
    · obtain ⟨b, here, rest⟩ := typed.parked c' old sub'
      refine ⟨b, ?_, rest⟩
      split
      next eq => exact List.mem_append.mpr (.inl (eq ▸ here))
      next => exact here
    · rw [List.mem_singleton.mp mem, if_pos rfl]
      exact ⟨⟨color, c.right, c.left, c.origin⟩, by simp, rfl, rfl, rfl⟩
  · intro r b mem
    rw [bounds] at mem
    have old : b ∈ s.bounds r ∨ b = ⟨color, c.right, c.left, c.origin⟩ := by
      split at mem
      next eq => simpa [eq] using mem
      next => exact .inl mem
    rcases old with old | rfl
    · obtain ⟨c', mem, rest⟩ := typed.bounds r b old
      exact ⟨c', List.mem_append.mpr (.inl mem), rest⟩
    · exact ⟨c, by simp, sub, rfl, rfl, rfl⟩

/-- A bound comes from the offer of a kind to the literal it was stated of. -/
theorem offer_of_bound (typed : Typed first s solved ahead) {r : Handle} {b : PendingBound}
    (mem : b ∈ s.bounds r) :
    ∃ l ∈ first.literals, ∃ k ∈ first.kinds l, l.handle = b.source ∧ l.literal.span = b.origin ∧
      first.graph.kind? b.right = some k := by
  obtain ⟨c, old, relation, left, right, origin⟩ := typed.bounds r b mem
  obtain ⟨l, hl, k, hk, offer⟩ := typed.queue.offers c (List.mem_append.mpr (.inl old))
    (by simp [relation])
  exact ⟨l, hl, k, hk, offer.left.symm.trans left, offer.origin.symm.trans origin,
    right ▸ offer.right⟩

/-- The class that is merged is linked with its new root, or that root is its only kind. -/
theorem child_joins (typed : Typed first s solved (c :: rest)) {child target : Handle}
    (equal : c.relation = .equal)
    (sides : child = s.graph.root c.left ∧ target = s.graph.root c.right ∨
      child = s.graph.root c.right ∧ target = s.graph.root c.left)
    (unresolved : s.graph.kind? child = none) :
    first.Linked child target ∨
      ∃ k, first.graph.kind? target = some k ∧ first.Sole child k := by
  have edge := typed.edges c (by simp) equal
  rcases sides with ⟨rfl, rfl⟩ | ⟨rfl, rfl⟩
  · have up := typed.linked_of_open unresolved
    rcases edge with linked | ⟨k, kind, sole⟩
    · have toRight := up.symm.trans linked
      rcases typed.roots c.right with rooted | ⟨k, kind, sole⟩
      · exact .inl (toRight.trans rooted)
      · exact .inr ⟨k, kind, sole.of_linked toRight⟩
    · have top : s.graph.root c.right = c.right :=
        WellFormed.root_of_kind? ((typed.kinds _).trans kind)
      exact .inr ⟨k, top.symm ▸ kind, sole.of_linked up.symm⟩
  · have up := typed.linked_of_open unresolved
    rcases edge with linked | ⟨k, kind, sole⟩
    · have toLeft := up.symm.trans linked.symm
      rcases typed.roots c.left with rooted | ⟨k, kind, sole⟩
      · exact .inl (toLeft.trans rooted)
      · exact .inr ⟨k, kind, sole.of_linked toLeft⟩
    · have kind' : s.graph.kind? c.right = some k := (typed.kinds _).trans kind
      rw [WellFormed.root_of_kind? kind', kind'] at unresolved
      cases unresolved

theorem merge (typed : Typed first s solved (c :: rest)) {child target : Handle}
    (equal : c.relation = .equal)
    (sides : child = s.graph.root c.left ∧ target = s.graph.root c.right ∨
      child = s.graph.root c.right ∧ target = s.graph.root c.left)
    (apart : child ≠ target) (top : s.graph.root target = target)
    (unresolved : s.graph.kind? child = none) (merges : Merges s.graph child target t.graph)
    (pending : t.pending = s.rehomed child target t.graph) :
    Typed first t (solved ++ [c]) rest := by
  have joins := typed.child_joins equal sides unresolved
  have queue : Queue first (solved ++ [c]) (rest ++ []) :=
    Queue.advance [c] typed.queue (by simp)
  rw [List.append_nil] at queue
  -- the right side of a bound is a kind, so moving the bound leaves it as it is
  have unmoved : ∀ b : PendingBound, ∀ r, b ∈ s.bounds r →
      { b with right := t.graph.root b.right } = b := by
    intro b r mem
    obtain ⟨l, _, k, _, _, _, kind⟩ := typed.offer_of_bound mem
    have kind' : t.graph.kind? b.right = some k :=
      (merges.kind_eq _).trans ((typed.kinds _).trans kind)
    rw [WellFormed.root_of_kind? kind']
  have member : ∀ r b, b ∈ t.bounds r ↔
      r ≠ child ∧ b ∈ s.bounds r ∨ r = target ∧ b ∈ s.bounds child := by
    intro r b
    rw [Solver.mem_bounds_rehomed apart pending]
    refine or_congr Iff.rfl (and_congr_right fun _ => ⟨?_, fun mem => ⟨b, mem, ?_⟩⟩)
    · rintro ⟨b₀, mem, rfl⟩
      rwa [unmoved b₀ child mem]
    · exact (unmoved b child mem).symm
  refine ⟨fun h => (merges.kind_eq h).trans (typed.kinds h), ?_,
    fun c' mem => typed.edges c' (by simp [mem]), queue, ?_, ?_, ?_⟩
  · intro h
    rw [merges.root_eq, top]
    by_cases below : s.graph.root h = child
    · rw [if_pos below]
      have up : first.Linked h child := below ▸ typed.linked_of_open (below ▸ unresolved)
      rcases joins with linked | ⟨k, kind, sole⟩
      · exact .inl (up.trans linked)
      · exact .inr ⟨k, kind, sole.of_linked up⟩
    · rw [if_neg below]
      exact typed.roots h
  · intro c' mem sub h same
    have alone := typed.alone c' (by simp [mem]) sub
    obtain ⟨left, right⟩ := (List.pairwise_cons.mp typed.queue.order).1 c' mem equal sub
    have notLeft : s.graph.root c.left ≠ s.graph.root c'.left := fun eq => left (alone _ eq)
    have notRight : s.graph.root c.right ≠ s.graph.root c'.left := fun eq => right (alone _ eq)
    have other : s.graph.root c'.left ≠ child ∧ s.graph.root c'.left ≠ target := by
      rcases sides with ⟨rfl, rfl⟩ | ⟨rfl, rfl⟩
      · exact ⟨notLeft.symm, notRight.symm⟩
      · exact ⟨notRight.symm, notLeft.symm⟩
    rw [merges.root_eq, merges.root_eq, if_neg other.1, top] at same
    split at same
    next => exact absurd same.symm other.2
    next => exact alone h same
  · intro c' mem sub
    rcases List.mem_append.mp mem with old | mem
    · obtain ⟨b, here, rest⟩ := typed.parked c' old sub
      refine ⟨b, (member _ _).mpr ?_, rest⟩
      rw [merges.root_eq, top]
      split
      next eq => exact .inr ⟨rfl, eq ▸ here⟩
      next ne => exact .inl ⟨ne, here⟩
    · rw [List.mem_singleton.mp mem] at sub
      exact absurd equal sub
  · intro r b mem
    have old : ∃ r, b ∈ s.bounds r := by
      rcases (member r b).mp mem with ⟨_, old⟩ | ⟨_, old⟩
      · exact ⟨r, old⟩
      · exact ⟨child, old⟩
    obtain ⟨r', old⟩ := old
    obtain ⟨c', mem, rest⟩ := typed.bounds r' b old
    exact ⟨c', List.mem_append.mpr (.inl mem), rest⟩

/-- Two resolved classes that an equality names are linked, since they differ. -/
theorem linked_of_deferred (typed : Typed first s solved (c :: rest)) (wf : s.graph.WellFormed)
    (equal : c.relation = .equal) (apart : s.graph.root c.left ≠ s.graph.root c.right)
    {k k' : Kind} (left : s.graph.kind? (s.graph.root c.left) = some k)
    (right : s.graph.kind? (s.graph.root c.right) = some k') :
    first.Linked (s.graph.root c.left) (s.graph.root c.right) := by
  -- a kind has one node, so the two roots cannot both be the kind that a side was narrowed to
  have one : ∀ {k₁}, first.graph.kind? (s.graph.root c.left) = some k₁ →
      first.graph.kind? (s.graph.root c.right) ≠ some k₁ := fun hl hr =>
    apart (wf.concrete_unique _ _ _ ((typed.kinds _).trans hl) ((typed.kinds _).trans hr))
  rw [typed.kinds] at left right
  rcases typed.edges c (by simp) equal with linked | ⟨k₂, kind, sole⟩
  · rcases typed.roots c.left with up | ⟨k₁, hl, sole⟩
    · rcases typed.roots c.right with up' | ⟨k₂, hr, sole'⟩
      · exact up.symm.trans (linked.trans up')
      · exact absurd (linked.symm.trans up) (sole'.not_linked left)
    · rcases typed.roots c.right with up' | ⟨k₂, hr, sole'⟩
      · exact absurd (linked.trans up') (sole.not_linked right)
      · rw [← sole.unique (sole'.of_linked linked)] at hr
        exact absurd hr (one hl)
  · have top := WellFormed.root_of_kind? ((typed.kinds _).trans kind)
    rcases typed.roots c.left with up | ⟨k₁, hl, sole'⟩
    · exact absurd up (sole.not_linked left)
    · rw [sole'.unique sole] at hl
      exact absurd (top.symm ▸ kind) (one hl)

theorem solve (laid : Laid first) (con : s.Consistent) {cs : List Constraint}
    (typed : Typed first s solved (c :: cs ++ s.store.worklist.toList)) (step : Solves c s t) :
    Typed first t (solved ++ [c]) (cs ++ t.store.worklist.toList) := by
  have mem : c ∈ c :: cs ++ s.store.worklist.toList := by simp
  have offered := typed.kind_of_offer laid mem
  have quiet : c.relation = .equal → Compresses s.graph t.graph → t.pending = s.pending →
      t.store = s.store → Typed first t (solved ++ [c]) (cs ++ t.store.worklist.toList) := by
    intro equal same pending store
    have none : ∀ c ∈ ([] : List Constraint), c.relation = .equal ∧ first.Edge c := by simp
    have next := advance (show Typed first s solved ([c] ++ (cs ++ s.store.worklist.toList))
      from typed) same pending (by simp [equal]) none
    rwa [List.append_nil, ← store] at next
  cases step with
  | @equated color earlier g j sub _ found _ =>
    have taken : earlier.color = color := by simpa using List.find?_some found
    exact absurd taken (typed.fresh_color sub (List.mem_of_find?_eq_some found))
  | parked sub _ _ _ same => exact typed.park sub same
  | lifted sub var _ resolved _ =>
    rw [typed.root_of_ahead con.forest mem (by simp [sub]), var] at resolved
    cases resolved
  | collapsed sub kind _ _ _ | lowered sub kind _ _ _ =>
    rw [offered (by simp [sub])] at kind
    cases kind
  | agreed left _ =>
    refine quiet ?_ (.refl con.forest) rfl rfl
    by_contra sub
    rw [offered sub] at left
    cases left
  | joined equal _ _ same => exact quiet equal same rfl rfl
  | @merged child target g j equal _ sides apart unresolved merges =>
    refine typed.merge equal ?_ apart ?_ unresolved merges rfl
    · rcases sides with sides | ⟨left, right, _⟩
      · exact .inl sides
      · exact .inr ⟨left, right⟩
    · rcases sides with ⟨_, rfl⟩ | ⟨_, rfl, _⟩ <;> exact con.forest.root_root _
  | @deferred k k' g j equal _ apart left right same =>
    have linked := typed.linked_of_deferred con.forest equal apart left right
    have emitted : Emits s _ [⟨s.graph.root c.left, .equal, s.graph.root c.right, c.origin⟩] :=
      .equal g j _ _ _
    rw [emitted.worklist, ← List.append_assoc]
    refine advance (show Typed first s solved ([c] ++ (cs ++ s.store.worklist.toList)) from typed)
      same rfl (by simp [equal]) fun e here => ?_
    rw [List.mem_singleton.mp here]
    exact ⟨rfl, fun _ => .inl linked⟩

end Typed

end Session

end ConstFun
