import ConstFun.Proofs.Order

namespace ConstFun

open TypeGraph

namespace TypeGraph

/-- The nodes that are variables, merged or not. -/
def variableNodes (g : TypeGraph) : Finset Handle :=
  ((Finset.range g.size).image fun n : Nat => (n : Int)).filter fun h => g.kind? h = none

/-- The variables that are roots. -/
def openRoots (g : TypeGraph) : Finset Handle := g.variableNodes.filter fun h => g.parent? h = none

theorem mem_variableNodes {g : TypeGraph} {h : Handle} :
    h ∈ g.variableNodes ↔ g.Has h ∧ g.kind? h = none := by
  have known : (∃ n < g.size, (n : Int) = h) ↔ g.Has h := by
    constructor
    · rintro ⟨n, below, rfl⟩
      exact ⟨Int.natCast_nonneg n, Int.ofNat_lt.mpr below⟩
    · rintro ⟨nonneg, below⟩
      exact ⟨h.toNat, (Int.toNat_lt nonneg).mpr below, Int.toNat_of_nonneg nonneg⟩
  rw [variableNodes, Finset.mem_filter, Finset.mem_image, ← known]
  simp only [Finset.mem_range]

theorem mem_openRoots {g : TypeGraph} {h : Handle} :
    h ∈ g.openRoots ↔ g.node? h = some .free := by
  rw [node?_eq_free, openRoots, Finset.mem_filter, mem_variableNodes]
  exact and_assoc

theorem card_openRoots_le (g : TypeGraph) : g.openRoots.card ≤ g.variableNodes.card :=
  Finset.card_le_card (Finset.filter_subset _ _)

theorem card_variableNodes_le (g : TypeGraph) : g.variableNodes.card ≤ g.size :=
  calc
    g.variableNodes.card ≤ ((Finset.range g.size).image fun n : Nat => (n : Int)).card :=
      Finset.card_le_card (Finset.filter_subset _ _)
    _ ≤ (Finset.range g.size).card := Finset.card_image_le
    _ = g.size := Finset.card_range _

theorem Compresses.openRoots_eq {g g' : TypeGraph} (same : Compresses g g') (wf : g.WellFormed) :
    g'.openRoots = g.openRoots := by
  ext h
  rw [mem_openRoots, mem_openRoots, node?_eq_free, node?_eq_free, same.has_iff, same.kind_eq,
    same.parent?_eq_none wf]

theorem Merges.openRoots_eq {g g' : TypeGraph} {child target : Handle} (wf : g.WellFormed)
    (merges : Merges g child target g') (top : g.root target = target) (apart : child ≠ target) :
    g'.openRoots = g.openRoots.erase child := by
  ext h
  rw [Finset.mem_erase, mem_openRoots, mem_openRoots, node?_eq_free, node?_eq_free,
    merges.has_iff, merges.kind_eq, ← merges.wellFormed.root_eq_self_iff, ← wf.root_eq_self_iff,
    merges.root_eq, top]
  by_cases below : g.root h = child
  · rw [if_pos below, below]
    constructor
    · rintro ⟨_, _, rfl⟩
      exact absurd (below.symm.trans top) apart
    · rintro ⟨other, _, _, self⟩
      exact absurd self.symm other
  · rw [if_neg below]
    constructor
    · rintro ⟨has, var, self⟩
      refine ⟨fun eq => below (self.trans eq), has, var, self⟩
    · rintro ⟨_, rest⟩
      exact rest

end TypeGraph

theorem Solves.card_openRoots_le {c : Constraint} {s t : Solver} (wf : s.graph.WellFormed)
    (solved : Solves c s t) : t.graph.openRoots.card ≤ s.graph.openRoots.card := by
  rcases solved.graph_cases wf with same | ⟨child, target, _, _, apart, top, _, merges⟩
  · rw [same.openRoots_eq wf]
  · rw [merges.openRoots_eq wf top apart]
    exact Finset.card_le_card (Finset.erase_subset _ _)

/-- Giving a kind to an open class closes it and emits nothing. -/
theorem Solves.of_narrows {c : Constraint} {s t : Solver} (wf : s.graph.WellFormed)
    (narrows : c.Narrows s.graph) (solved : Solves c s t) :
    t.store = s.store ∧ t.graph.openRoots = s.graph.openRoots.erase c.left := by
  obtain ⟨equal, free, resolved⟩ := narrows
  obtain ⟨_, var, top⟩ := node?_eq_free.mp free
  obtain ⟨k, kind⟩ := Option.ne_none_iff_exists'.mp resolved
  have left : s.graph.root c.left = c.left := WellFormed.root_of_root top
  have right : s.graph.root c.right = c.right := WellFormed.root_of_kind? kind
  cases solved with
  | equated sub _ _ _ | parked sub _ _ _ _ | lifted sub _ _ _ _ | collapsed sub _ _ _ _
  | lowered sub _ _ _ _ => simp [equal] at sub
  | agreed hk _ => simp [var] at hk
  | joined _ _ one _ =>
    rw [left, right] at one
    rw [← one, var] at kind
    cases kind
  | @merged child target g j _ _ sides apart unresolved merges =>
    rcases sides with ⟨rfl, rfl⟩ | ⟨rfl, -, -⟩
    · refine ⟨rfl, ?_⟩
      change g.openRoots = _
      rw [merges.openRoots_eq wf (wf.root_root _) apart, left]
    · rw [right, kind] at unresolved
      cases unresolved
  | deferred _ _ _ hk _ _ =>
    rw [left, var] at hk
    cases hk

/-- The worklist while classes are settled: each constraint gives a kind to an open class of its
own, and none of these classes is still to be settled. -/
structure Narrowed (first : TypeGraph) (es : List (Handle × List PendingBound)) (emitted : Bool)
    (t : Solver) : Prop where
  openRoots : t.graph.openRoots = first.openRoots
  narrows : ∀ c ∈ t.store.worklist.toList, c.Narrows t.graph
  apart : (t.store.worklist.toList.map (·.left)).Nodup
  settled : ∀ c ∈ t.store.worklist.toList, c.left ∉ es.map Prod.fst
  keys : (es.map Prod.fst).Nodup
  isEmpty : t.store.worklist.toList = [] ↔ emitted = false

theorem Narrowed.settle {first : TypeGraph} {root : Handle} {bounds : List PendingBound}
    {es : List (Handle × List PendingBound)} {before now : Bool} {s t : Solver}
    (con : s.Consistent) (kept : s.pending.get? root = some bounds)
    (settled : Settles root bounds s now t)
    (narrowed : Narrowed first ((root, bounds) :: es) before s) :
    Narrowed first es (now || before) t := by
  obtain ⟨new, emitted, length, narrows⟩ := settled.emits con kept
  have same := settled.compresses con.forest
  have roots := same.openRoots_eq con.forest
  obtain ⟨here, keys⟩ := List.nodup_cons.mp narrowed.keys
  have later : ∀ c ∈ s.store.worklist.toList, c.left ≠ root ∧ c.left ∉ es.map Prod.fst := by
    intro c mem
    have apart := narrowed.settled c mem
    rw [List.map_cons, List.mem_cons, not_or] at apart
    exact apart
  refine ⟨roots.trans narrowed.openRoots, ?_, ?_, ?_, keys, ?_⟩
  · intro c mem
    rw [emitted.worklist] at mem
    have before : c.Narrows s.graph := by
      rcases List.mem_append.mp mem with mem | mem
      · exact narrowed.narrows c mem
      · exact (narrows c mem).2
    obtain ⟨equal, free, resolved⟩ := before
    refine ⟨equal, ?_, (same.kind_eq _).symm ▸ resolved⟩
    rwa [← mem_openRoots, roots, mem_openRoots]
  · rw [emitted.worklist, List.map_append, List.nodup_append]
    refine ⟨narrowed.apart, ?_, ?_⟩
    · cases now with
      | false => simp [List.length_eq_zero_iff.mp length]
      | true =>
        obtain ⟨c, rfl⟩ := List.length_eq_one_iff.mp length
        simp
    · intro a old b mem
      obtain ⟨c, oldMem, rfl⟩ := List.mem_map.mp old
      obtain ⟨c', newMem, rfl⟩ := List.mem_map.mp mem
      rw [(narrows c' newMem).1]
      exact (later c oldMem).1
  · intro c mem
    rw [emitted.worklist] at mem
    rcases List.mem_append.mp mem with mem | mem
    · exact (later c mem).2
    · rw [(narrows c mem).1]
      exact here
  · rw [emitted.worklist, List.append_eq_nil_iff, narrowed.isEmpty, ← List.length_eq_zero_iff,
      length]
    cases now <;> simp

section Loops

variable (narrowing : Bool) (r : Nat) (done : List Constraint)

/-- Solving a batch passes its constraints one after the other, and keeps what each of them
keeps. -/
theorem batch_ends {I : List Constraint → Solver → Prop}
    (kept : ∀ {c cs s t}, s.Consistent → c.Names s.graph → Solves c s t → I (c :: cs) s → I cs t)
    {cs : List Constraint} {s : Solver} (con : s.Consistent) (start : I cs s) :
    Ends (cs.forM SolverM.step) s
      (fun _ t => t.Consistent ∧ I [] t ∧
        Passes narrowing ⟨.solving cs, s, r, done⟩ ⟨.solving [], t, r, done ++ cs⟩)
      (fun e t => ∃ before,
        Passes narrowing ⟨.solving cs, s, r, done⟩ ⟨.failed e, t, r, before⟩) := by
  induction cs generalizing s done with
  | nil =>
    rw [List.append_nil]
    exact ⟨con, start, .refl⟩
  | cons c cs ih =>
    change Ends (SolverM.step c >>= fun _ => cs.forM SolverM.step) s _ _
    refine Ends.bind ?_
    unfold Ends
    cases run : SolverM.step c s with
    | error e t => exact ⟨done, .single (.mismatch run)⟩
    | ok u t =>
      have effect := con.step_effect narrowing r done c cs
      simp only [Ends, run] at effect
      cases effect with
      | solve named solved =>
        rw [List.append_cons]
        refine (ih (done ++ [c]) (con.solves named.1 named.2 solved)
          (kept con named solved start)).imp ?_ ?_
        · rintro _ t' ⟨con', last, later⟩
          exact ⟨con', last, .head (.solve run) later⟩
        · rintro e t' ⟨before, later⟩
          exact ⟨before, .head (.solve run) later⟩

theorem literals_end {ls : List (Handle × Option Span)} {s : Solver} (con : s.Consistent)
    (has : ∀ l ∈ ls, s.graph.Has l.1) :
    Ends (ls.forM fun l => SolverM.checkUnrepresentable l.1 l.2) s
      (fun _ t => (∃ g, Compresses s.graph g ∧ t = s.withGraph g s.journal) ∧
        Passes narrowing ⟨.checking ls, s, r, done⟩ ⟨.checking [], t, r, done⟩)
      (fun e t => Passes narrowing ⟨.checking ls, s, r, done⟩ ⟨.failed e, t, r, done⟩) := by
  induction ls generalizing s with
  | nil => exact ⟨⟨s.graph, .refl con.forest, rfl⟩, .refl⟩
  | cons l ls ih =>
    change Ends (SolverM.checkUnrepresentable l.1 l.2 >>= fun _ =>
      ls.forM fun l => SolverM.checkUnrepresentable l.1 l.2) s _ _
    refine Ends.bind ?_
    unfold Ends
    cases run : SolverM.checkUnrepresentable l.1 l.2 s with
    | error e t => exact .single (.refuse run)
    | ok u t =>
      have effect := con.check_effect narrowing r done (has l (by simp)) l.2 ls
      simp only [Ends, run] at effect
      cases effect with
      | @check _ _ _ _ _ _ g same unresolved =>
        have next : (s.withGraph g s.journal).Consistent := con.compress same rfl rfl
        refine (ih next fun l' mem => same.has_iff.mpr (has l' (by simp [mem]))).imp ?_ ?_
        · rintro _ t' ⟨⟨g', same', rfl⟩, later⟩
          exact ⟨⟨g', same.trans same', rfl⟩, .head (.check run) later⟩
        · exact fun _ _ later => .head (.check run) later

theorem classes_end {I : List (Handle × List PendingBound) → Bool → Solver → Prop}
    (kept : ∀ {root bounds es before now s t}, s.Consistent → s.pending.get? root = some bounds →
      Settles root bounds s now t → I ((root, bounds) :: es) before s → I es (now || before) t)
    {es : List (Handle × List PendingBound)} {emitted : Bool} {s : Solver} (con : s.Consistent)
    (classes : ∀ e ∈ es, s.pending.get? e.1 = some e.2) (start : I es emitted s) :
    Ends (es.foldlM (fun emitted e => return (← SolverM.narrowClass e.1 e.2) || emitted) emitted) s
      (fun now t => t.Consistent ∧ I [] now t ∧
        Passes narrowing ⟨.settling es emitted, s, r, done⟩ ⟨.settling [] now, t, r, done⟩)
      (fun e t => Passes narrowing ⟨.settling es emitted, s, r, done⟩ ⟨.failed e, t, r, done⟩) := by
  induction es generalizing s emitted with
  | nil => exact ⟨con, start, .refl⟩
  | cons e es ih =>
    rw [List.foldlM_cons, bind_assoc]
    refine Ends.bind ?_
    unfold Ends
    cases run : SolverM.narrowClass e.1 e.2 s with
    | error f t => exact .single (.unsettled run)
    | ok now t =>
      change Ends (pure (now || emitted) >>= _) t _ _
      rw [pure_bind]
      have here := classes e (by simp)
      have settled := con.narrowClass_ends here
      simp only [Ends, run] at settled
      refine (ih (con.settles settled) ?_ (kept con here settled start)).imp ?_ ?_
      · intro e' mem
        rw [settled.pending_eq]
        exact classes e' (by simp [mem])
      · rintro _ _ ⟨con', last, later⟩
        exact ⟨con', last, .head (.settle run) later⟩
      · exact fun _ _ later => .head (.settle run) later

/-- Narrowing ends with a worklist of its own constraints. -/
theorem narrow_ends {s : Solver} (con : s.Consistent) (none_left : s.store.worklist.toList = []) :
    Ends SolverM.narrow s
      (fun emitted t => t.Consistent ∧ Narrowed s.graph [] emitted t ∧
        Passes narrowing ⟨.checking s.unrepresentable.entries, s, r, done⟩
          ⟨.settling [] emitted, t, r, done⟩)
      (fun e t => Passes narrowing ⟨.checking s.unrepresentable.entries, s, r, done⟩
        ⟨.failed e, t, r, done⟩) := by
  unfold SolverM.narrow Ends
  rw [bind_of_ok (get_run s)]
  refine Ends.bind ((literals_end narrowing r done con con.literals).imp ?_ fun _ _ ends => ends)
  rintro _ _ ⟨⟨g, same, rfl⟩, literals⟩
  have con' : (s.withGraph g s.journal).Consistent := con.compress same rfl rfl
  have start : Narrowed s.graph s.pending.entries false (s.withGraph g s.journal) := by
    have empty : (s.withGraph g s.journal).store.worklist.toList = [] := none_left
    exact ⟨same.openRoots_eq con.forest, by simp [empty], by simp [empty], by simp [empty],
      con.distinct, by simp [empty]⟩
  refine (classes_end narrowing r done Narrowed.settle con'
    (fun e => con.distinct.mem_entries.mp) start).imp ?_ ?_
  · rintro emitted t ⟨con'', narrowed, classes⟩
    exact ⟨con'', narrowed, literals.trans (.head .checked classes)⟩
  · exact fun _ _ classes => literals.trans (.head .checked classes)

end Loops

/-- The number of constraints that solving these can lead to, themselves included. -/
def totalWeight (g : TypeGraph) (cs : List Constraint) : Nat := (cs.map (·.weight g)).sum

theorem totalWeight_cons (g : TypeGraph) (c : Constraint) (cs : List Constraint) :
    totalWeight g (c :: cs) = c.weight g + totalWeight g cs := by
  simp [totalWeight]

theorem totalWeight_append (g : TypeGraph) (cs cs' : List Constraint) :
    totalWeight g (cs ++ cs') = totalWeight g cs + totalWeight g cs' := by
  simp [totalWeight]

theorem totalWeight_le (g : TypeGraph) (cs : List Constraint) :
    totalWeight g cs ≤ 4 * cs.length := by
  induction cs with
  | nil => simp [totalWeight]
  | cons c cs ih =>
    have le := c.weight_le g
    rw [totalWeight_cons, List.length_cons]
    omega

theorem totalWeight_congr {g g' : TypeGraph} (kinds : ∀ h, g'.kind? h = g.kind? h)
    (cs : List Constraint) : totalWeight g' cs = totalWeight g cs := by
  simp [totalWeight, Constraint.weight_congr kinds]

/-- So many rounds and so many constraints are enough from here on. A worklist that comes from
narrowing is paid by the classes that it closes. -/
def Solver.Affords (s : Solver) (fuel extra : Nat) : Prop :=
  (totalWeight s.graph s.store.worklist.toList + 2 * s.graph.openRoots.card + 1 ≤ fuel ∧
      totalWeight s.graph s.store.worklist.toList + s.graph.openRoots.card ≤ extra) ∨
    Narrowed s.graph [] true s ∧ 2 * s.graph.openRoots.card ≤ fuel ∧
      s.graph.openRoots.card ≤ extra

/-- The invariant of a batch: every constraint that was solved is paid. -/
structure Paid (first : Solver) (cs : List Constraint) (t : Solver) : Prop where
  kinds : ∀ h, t.graph.kind? h = first.graph.kind? h
  weight : totalWeight first.graph cs + totalWeight first.graph t.store.worklist.toList +
    first.store.worklist.size ≤ totalWeight first.graph first.store.worklist.toList + cs.length
  openRoots : t.graph.openRoots.card ≤ first.graph.openRoots.card

theorem Paid.solve {first : Solver} {c : Constraint} {cs : List Constraint} {s t : Solver}
    (con : s.Consistent) (named : c.Names s.graph) (solved : Solves c s t)
    (paid : Paid first (c :: cs) s) : Paid first cs t := by
  obtain ⟨new, emitted, _, cost⟩ := solved.emits con named
  have weight := paid.weight
  rw [c.weight_congr paid.kinds] at cost
  change totalWeight s.graph new + 1 ≤ _ at cost
  rw [totalWeight_congr paid.kinds] at cost
  rw [totalWeight_cons, List.length_cons] at weight
  refine ⟨fun h => (solved.kind_eq con.forest h).trans (paid.kinds h), ?_,
    (solved.card_openRoots_le con.forest).trans paid.openRoots⟩
  rw [emitted.worklist, totalWeight_append]
  omega

/-- The invariant of a batch that comes from narrowing: every constraint that was solved closed
a class. -/
structure Closing (first : Solver) (cs : List Constraint) (t : Solver) : Prop where
  worklist : t.store.worklist.toList = []
  narrows : ∀ c ∈ cs, c.Narrows t.graph
  apart : (cs.map (·.left)).Nodup
  openRoots : t.graph.openRoots.card + first.store.worklist.size =
    first.graph.openRoots.card + cs.length

theorem Closing.solve {first : Solver} {c : Constraint} {cs : List Constraint} {s t : Solver}
    (con : s.Consistent) (_ : c.Names s.graph) (solved : Solves c s t)
    (closing : Closing first (c :: cs) s) : Closing first cs t := by
  have here := closing.narrows c (by simp)
  obtain ⟨store, roots⟩ := solved.of_narrows con.forest here
  obtain ⟨distinct, apart⟩ := List.nodup_cons.mp closing.apart
  have mem : c.left ∈ s.graph.openRoots := mem_openRoots.mpr here.2.1
  refine ⟨store ▸ closing.worklist, ?_, apart, ?_⟩
  · intro c' later
    obtain ⟨equal, free, resolved⟩ := closing.narrows c' (by simp [later])
    refine ⟨equal, ?_, (solved.kind_eq con.forest _).symm ▸ resolved⟩
    rw [← mem_openRoots, roots, Finset.mem_erase, mem_openRoots]
    exact ⟨fun eq => distinct (List.mem_map.mpr ⟨c', later, eq⟩), free⟩
  · have count := closing.openRoots
    have card := Finset.card_erase_add_one mem
    rw [List.length_cons] at count
    rw [roots]
    omega

section Rounds

variable (narrowing : Bool)

theorem batch_affords (r : Nat) (done : List Constraint) {s : Solver} {fuel extra : Nat}
    (con : s.Consistent) (affords : s.Affords (fuel + 1) extra)
    (some_left : s.store.worklist.isEmpty = false) (e : Event) :
    Ends (s.store.worklist.toList.forM SolverM.step) (s.drained.record e)
      (fun _ t => t.Consistent ∧
        (∃ rest, s.store.worklist.size + rest = extra ∧ t.Affords fuel rest) ∧
        Passes narrowing ⟨.solving s.store.worklist.toList, s.drained.record e, r, done⟩
          ⟨.solving [], t, r, done ++ s.store.worklist.toList⟩)
      (fun e' t => ∃ before,
        Passes narrowing ⟨.solving s.store.worklist.toList, s.drained.record e, r, done⟩
          ⟨.failed e', t, r, before⟩) := by
  have start : (s.drained.record e).Consistent := con.compress (.refl con.forest) rfl rfl
  have taken : (s.drained.record e).store.worklist.toList = [] := rfl
  have nonempty : 0 < s.store.worklist.size := by
    rw [Array.isEmpty_eq_false_iff, Array.size_pos_iff.symm] at some_left
    exact some_left
  rcases affords with ⟨rounds, count⟩ | ⟨narrowed, rounds, count⟩
  · have paid : Paid s s.store.worklist.toList (s.drained.record e) :=
      ⟨fun _ => rfl, by simp [taken, totalWeight], le_rfl⟩
    refine (batch_ends narrowing r done Paid.solve start paid).imp ?_ fun _ _ ends => ends
    rintro _ t ⟨con', ⟨kinds, weight, roots⟩, passes⟩
    have empty : totalWeight s.graph [] = 0 := rfl
    rw [← totalWeight_congr kinds t.store.worklist.toList, empty, List.length_nil] at weight
    exact ⟨con', ⟨extra - s.store.worklist.size, by omega, .inl ⟨by omega, by omega⟩⟩, passes⟩
  · have closing : Closing s s.store.worklist.toList (s.drained.record e) :=
      ⟨taken, narrowed.narrows, narrowed.apart, by simp; rfl⟩
    refine (batch_ends narrowing r done Closing.solve start closing).imp ?_ fun _ _ ends => ends
    rintro _ t ⟨con', ⟨worklist, _, _, roots⟩, passes⟩
    rw [List.length_nil] at roots
    refine ⟨con', ⟨extra - s.store.worklist.size, by omega, .inl ?_⟩, passes⟩
    rw [worklist]
    exact ⟨by simp [totalWeight]; omega, by simp [totalWeight]; omega⟩

/-- With enough rounds the loop ends where the run ends. -/
theorem rounds_end (fuel r : Nat) (done : List Constraint) {s : Solver} {extra : Nat}
    (con : s.Consistent) (affords : s.Affords fuel extra) :
    Ends (SolverM.rounds narrowing fuel r done.length) s
      (fun n t => ∃ solved, n.2 = solved.length ∧ solved.length ≤ done.length + extra ∧
        Passes narrowing ⟨.draining, s, r, done⟩ ⟨.finished, t, n.1, solved⟩)
      (fun e t => ∃ r' solved,
        Passes narrowing ⟨.draining, s, r, done⟩ ⟨.failed e, t, r', solved⟩) := by
  induction fuel generalizing r done s extra with
  | zero =>
    rcases affords with ⟨rounds, _⟩ | ⟨narrowed, rounds, _⟩
    · omega
    · -- a worklist of narrowing is not empty, so a class is open
      have some_left : s.store.worklist.toList ≠ [] := fun empty =>
        absurd (narrowed.isEmpty.mp empty) (by simp)
      obtain ⟨c, mem⟩ := List.exists_mem_of_ne_nil _ some_left
      have isOpen : c.left ∈ s.graph.openRoots := mem_openRoots.mpr (narrowed.narrows c mem).2.1
      have card := Finset.card_pos.mpr ⟨_, isOpen⟩
      omega
  | succ fuel ih =>
    unfold SolverM.rounds
    refine Ends.bind ?_
    change Ends (if s.store.worklist.isEmpty then _ else _) s.drained _ _
    cases none_left : s.store.worklist.isEmpty with
    | true =>
      have empty : s.drained.store.worklist.toList = [] := rfl
      have con' : s.drained.Consistent := con.compress (.refl con.forest) rfl rfl
      simp only [if_true]
      cases narrowing with
      | false =>
        exact ⟨done, rfl, Nat.le_add_right _ _, .single (.rest none_left rfl)⟩
      | true =>
        have review : Acts true ⟨.draining, s, r, done⟩
            ⟨.checking s.unrepresentable.entries, s.drained, r, done⟩ := .review none_left rfl
        refine Ends.bind ((narrow_ends true r done con' empty).imp ?_ ?_)
        · rintro emitted t ⟨con'', narrowed, passes⟩
          have first := passes.head review
          cases emitted with
          | false =>
            exact ⟨done, rfl, Nat.le_add_right _ _, first.tail .settled⟩
          | true =>
            have affords' : t.Affords fuel extra := by
              have roots : t.graph.openRoots = s.graph.openRoots := narrowed.openRoots
              refine .inr ⟨{ narrowed with openRoots := rfl }, ?_⟩
              rw [roots]
              rcases affords with ⟨rounds, count⟩ | ⟨waiting, _, _⟩
              · exact ⟨by omega, by omega⟩
              · have none : s.store.worklist.toList = [] := by
                  simpa using Array.isEmpty_iff.mp none_left
                exact absurd (waiting.isEmpty.mp none) (by simp)
            refine (ih r done con'' affords').imp ?_ ?_
            · rintro n t' ⟨solved, length, bound, later⟩
              exact ⟨solved, length, bound, (first.tail .settled).trans later⟩
            · rintro e t' ⟨r', solved, later⟩
              exact ⟨r', solved, (first.tail .settled).trans later⟩
        · intro e t passes
          exact ⟨r, done, passes.head review⟩
    | false =>
      simp only [Bool.false_eq_true, if_false]
      refine Ends.bind ?_
      change Ends _ (s.drained.record (Solver.roundEvent r s.store.worklist.size)) _ _
      refine Ends.bind ((batch_affords narrowing (r + 1) done con affords none_left _).imp ?_ ?_)
      · rintro _ t ⟨con', ⟨rest, total, affords'⟩, passes⟩
        have first := (passes.head (.take none_left)).tail .again
        have next := ih (r + 1) (done ++ s.store.worklist.toList) con' affords'
        have size : s.store.worklist.toList.length = s.store.worklist.size := Array.length_toList
        rw [List.length_append, size] at next
        refine next.imp ?_ ?_
        · rintro n t' ⟨solved, length, bound, later⟩
          exact ⟨solved, length, by omega, first.trans later⟩
        · rintro e t' ⟨r', solved, later⟩
          exact ⟨r', solved, first.trans later⟩
      · rintro e t ⟨before, passes⟩
        exact ⟨r + 1, before, passes.head (.take none_left)⟩

/-- The rounds that the solver is given suffice: it stops at the last point of its run. -/
theorem solve_ends {s : Solver} (con : s.Consistent) :
    Ends (SolverM.solve narrowing) s
      (fun n t => ∃ last r solved, n = (solved : List Constraint).length ∧
        n ≤ 4 * s.store.worklist.size + s.graph.variableNodes.card ∧
        t = last.record (Solver.fixpointEvent r n) ∧
        Passes narrowing (Point.start s) ⟨.finished, last, r, solved⟩)
      (fun e t => ∃ r solved, Passes narrowing (Point.start s) ⟨.failed e, t, r, solved⟩) := by
  have affords : s.Affords (SolverM.roundLimit s)
      (4 * s.store.worklist.size + s.graph.variableNodes.card) := by
    have weight := totalWeight_le s.graph s.store.worklist.toList
    have roots := s.graph.card_openRoots_le
    have nodes := s.graph.card_variableNodes_le
    rw [Array.length_toList] at weight
    unfold SolverM.roundLimit
    exact .inl ⟨by omega, by omega⟩
  unfold SolverM.solve Ends
  rw [bind_of_ok (get_run s)]
  refine Ends.bind ((rounds_end narrowing _ 0 [] con affords).imp ?_ fun _ _ ends => ends)
  rintro ⟨r, n⟩ t ⟨solved, length, bound, passes⟩
  dsimp only at length passes
  refine ⟨t, r, solved, length, ?_, rfl, passes⟩
  rw [List.length_nil, Nat.zero_add] at bound
  exact length.trans_le bound

end Rounds

end ConstFun
