import ConstFun.Proofs.SolverStep
import ConstFun.Proofs.Tables

namespace ConstFun

open TypeGraph

/-- The kind of a handle's class. -/
def TypeGraph.classKind? (g : TypeGraph) (h : Handle) : Option Kind := g.kind? (g.root h)

theorem TypeGraph.Compresses.classKind_eq {g g' : TypeGraph} (same : Compresses g g') (h : Handle) :
    g'.classKind? h = g.classKind? h := by
  unfold classKind?
  rw [same.root_eq, same.kind_eq]

/-- Some bound of the source resolves to the kind. -/
def Admits (g : TypeGraph) (bounds : List PendingBound) (source : Handle) (k : Kind) : Prop :=
  ∃ b ∈ bounds, b.source = source ∧ g.classKind? b.right = some k

/-- Every source of the bounds admits the kind. -/
def Common (g : TypeGraph) (bounds : List PendingBound) (k : Kind) : Prop :=
  ∀ b ∈ bounds, Admits g bounds b.source k

/-- Every bound resolves to a kind. -/
def Known (g : TypeGraph) (bounds : List PendingBound) : Prop :=
  ∀ b ∈ bounds, g.classKind? b.right ≠ none

/-- What settling a class can do, and whether it emits a constraint. -/
inductive Settles (root : Handle) (bounds : List PendingBound) (s : Solver) : Bool → Solver → Prop
  | skipped (linked : s.graph.parent? root ≠ none) : Settles root bounds s false s
  | waiting {g : TypeGraph} (unknown : ¬Known s.graph bounds) (same : Compresses s.graph g) :
      Settles root bounds s false (s.withGraph g s.journal)
  | fitting {k : Kind} {g : TypeGraph} (known : Known s.graph bounds)
      (resolved : s.graph.kind? root = some k) (common : Common s.graph bounds k)
      (same : Compresses s.graph g) : Settles root bounds s false (s.withGraph g s.journal)
  | ambiguous {k k' : Kind} {g : TypeGraph} (known : Known s.graph bounds)
      (unresolved : s.graph.kind? root = none) (differ : k ≠ k')
      (first : Common s.graph bounds k) (second : Common s.graph bounds k')
      (same : Compresses s.graph g) : Settles root bounds s false (s.withGraph g s.journal)
  | narrowed {k : Kind} {target : Handle} {g : TypeGraph} {j : Array Event}
      (top : s.graph.parent? root = none) (known : Known s.graph bounds)
      (unresolved : s.graph.kind? root = none) (only : ∀ k', Common s.graph bounds k' ↔ k' = k)
      (kind : s.graph.kind? target = some k) (same : Compresses s.graph g) :
      Settles root bounds s true
        ((s.withGraph g j).constrainEqual root target (bounds.head?.bind (·.origin)))

/-- The mismatches that settling a class can find. -/
inductive Misfits (root : Handle) (bounds : List PendingBound) (s : Solver) : TypeError → Prop
  | unfit {k : Kind} {b : PendingBound} (known : Known s.graph bounds)
      (resolved : s.graph.kind? root = some k) (mem : b ∈ bounds)
      (outside : ¬Admits s.graph bounds b.source k) :
      Misfits root bounds s ⟨.unfit k, b.origin <|> bounds.head?.bind (·.origin)⟩
  | disjoint (known : Known s.graph bounds) (unresolved : s.graph.kind? root = none)
      (empty : ∀ k, ¬Common s.graph bounds k) :
      Misfits root bounds s ⟨.noCommonKind, bounds.head?.bind (·.origin)⟩

/-- The kinds of the bounds of one source. -/
def kindsOf (g : TypeGraph) (bounds : List PendingBound) (source : Handle) : List Kind :=
  (bounds.filter (·.source = source)).filterMap fun b => g.classKind? b.right

theorem mem_kindsOf {g : TypeGraph} {bounds : List PendingBound} {source : Handle} {k : Kind} :
    k ∈ kindsOf g bounds source ↔ Admits g bounds source k := by
  simp [kindsOf, Admits, List.mem_filterMap, and_assoc]

/-- The kinds of the bounds by their sources, added to a table. -/
def grouped (g : TypeGraph) (known : Table Handle (List Kind)) (bounds : List PendingBound) :
    Table Handle (List Kind) :=
  bounds.foldl (fun t b => t.addAll b.source (g.classKind? b.right).toList) known

theorem grouped_distinct {g : TypeGraph} {known : Table Handle (List Kind)}
    (distinct : known.Distinct) (bounds : List PendingBound) :
    (grouped g known bounds).Distinct := by
  induction bounds generalizing known with
  | nil => exact distinct
  | cons b bounds ih => exact ih (distinct.addAll _ _)

theorem get?_grouped (g : TypeGraph) (known : Table Handle (List Kind))
    (bounds : List PendingBound) (x : Handle) :
    (grouped g known bounds).get? x =
      if ∃ b ∈ bounds, b.source = x then some ((known.get? x).getD [] ++ kindsOf g bounds x)
      else known.get? x := by
  induction bounds generalizing known with
  | nil => simp [grouped]
  | cons b bounds ih =>
    have step : grouped g known (b :: bounds) =
        grouped g (known.addAll b.source (g.classKind? b.right).toList) bounds := rfl
    rw [step, ih, Table.get?_addAll]
    by_cases here : b.source = x
    · subst x
      have later : kindsOf g (b :: bounds) b.source =
          (g.classKind? b.right).toList ++ kindsOf g bounds b.source := by
        unfold kindsOf
        cases hk : g.classKind? b.right <;> simp [hk]
      by_cases more : ∃ b' ∈ bounds, b'.source = b.source
      · simp [more, later]
      · have none_left : kindsOf g bounds b.source = [] := by
          rw [List.eq_nil_iff_forall_not_mem]
          intro k mem
          obtain ⟨b', mem, same, _⟩ := mem_kindsOf.mp mem
          exact more ⟨b', mem, same⟩
        simp [more, later, none_left]
    · have skip : kindsOf g (b :: bounds) x = kindsOf g bounds x := by
        simp [kindsOf, here]
      simp [here, Ne.symm here, skip]

namespace SolverM

theorem mem_commonKinds_grouped {g : TypeGraph} {bounds : List PendingBound} {k : Kind} :
    k ∈ commonKinds (grouped g {} bounds) ↔ Common g bounds k := by
  have distinct := grouped_distinct (g := g) Table.distinct_empty bounds
  have looked : ∀ x, (grouped g {} bounds).get? x =
      if ∃ b ∈ bounds, b.source = x then some (kindsOf g bounds x) else none :=
    fun x => get?_grouped g {} bounds x
  simp only [commonKinds, List.mem_filter, Kind.mem_all, true_and, List.all_eq_true,
    List.contains_iff_mem]
  constructor
  · intro every b mem
    have entry : (b.source, kindsOf g bounds b.source) ∈ (grouped g {} bounds).entries := by
      rw [distinct.mem_entries, looked, if_pos ⟨b, mem, rfl⟩]
    exact mem_kindsOf.mp (every _ entry)
  · rintro common ⟨x, ks⟩ entry
    rw [distinct.mem_entries, looked] at entry
    split at entry
    next present =>
      obtain ⟨b, mem, rfl⟩ := present
      cases entry
      exact mem_kindsOf.mpr (common b mem)
    next => cases entry

/-- The first bound whose source does not admit a kind that is not common. -/
theorem originOutside_grouped {g : TypeGraph} {bounds : List PendingBound} {k : Kind}
    (outside : ¬Common g bounds k) :
    ∃ b ∈ bounds, ¬Admits g bounds b.source k ∧
      originOutside (grouped g {} bounds) bounds k = b.origin := by
  have looked : ∀ b ∈ bounds,
      (!(((grouped g {} bounds).get? b.source).getD []).contains k) = true ↔
        ¬Admits g bounds b.source k := by
    intro b mem
    rw [get?_grouped, if_pos ⟨b, mem, rfl⟩, ← mem_kindsOf]
    simp [Table.get?]
  unfold originOutside
  cases found : bounds.find? fun b =>
      !(((grouped g {} bounds).get? b.source).getD []).contains k with
  | none =>
    have missing := List.find?_eq_none.mp found
    refine absurd (fun b mem => ?_) outside
    by_contra hb
    exact missing b mem ((looked b mem).mpr hb)
  | some b =>
    have mem := List.mem_of_find?_eq_some found
    have holds := List.find?_some found
    exact ⟨b, mem, (looked b mem).mp holds, rfl⟩

theorem choices_go_run {s : Solver} (wf : s.graph.WellFormed) {bounds : List PendingBound}
    (has : ∀ b ∈ bounds, s.graph.Has b.right) (known : Table Handle (List Kind)) :
    ∃ g, Compresses s.graph g ∧
      (Known s.graph bounds ∧ choices.go known bounds s =
          .ok (some (grouped s.graph known bounds)) { s with graph := g } ∨
        ¬Known s.graph bounds ∧ choices.go known bounds s = .ok none { s with graph := g }) := by
  induction bounds generalizing s known with
  | nil => exact ⟨s.graph, .refl wf, .inl ⟨by simp [Known], rfl⟩⟩
  | cons b bounds ih =>
    have first := wf.find_compresses b.right
    have read : kindOf (s.graph.root b.right) { s with graph := (s.graph.find b.right).2 } =
        .ok (s.graph.classKind? b.right) { s with graph := (s.graph.find b.right).2 } :=
      kindOf_root_run wf first (has b (by simp))
    unfold choices.go
    rw [bind_of_ok (find_run s b.right), bind_of_ok read]
    cases hk : s.graph.classKind? b.right with
    | none =>
      refine ⟨_, first, .inr ⟨fun all => all b (by simp) hk, rfl⟩⟩
    | some k =>
      obtain ⟨g, rest, outcome⟩ := ih (s := { s with graph := (s.graph.find b.right).2 })
        first.wellFormed (fun b' mem => first.has_iff.mpr (has b' (by simp [mem])))
        (known.addAll b.source [k])
      have groupedSame : grouped (s.graph.find b.right).2 (known.addAll b.source [k]) bounds =
          grouped s.graph known (b :: bounds) := by
        simp [grouped, first.classKind_eq, hk]
      have knownSame : Known (s.graph.find b.right).2 bounds ↔ Known s.graph (b :: bounds) := by
        simp [Known, first.classKind_eq, hk]
      refine ⟨g, first.trans rest, ?_⟩
      simp only [groupedSame, knownSame] at outcome
      exact outcome

theorem log_run (e : Event) (s : Solver) : log e s = .ok () (s.record e) := rfl

theorem concrete_run {s : Solver} {k : Kind} {h : Handle} {g : TypeGraph}
    (made : s.graph.concrete k = (h, g)) : concrete k s = .ok h { s with graph := g } := by
  have ran : concrete k s = .ok (s.graph.concrete k).1
      { s with graph := (s.graph.concrete k).2 } := rfl
  rw [ran, made]

theorem commonKinds_nodup (known : Table Handle (List Kind)) : (commonKinds known).Nodup :=
  List.Nodup.filter _ (by decide)

/-- Settling a class compresses paths, and narrows it or finds a mismatch. -/
theorem narrowClass_cases {s : Solver} {root : Handle} {bounds : List PendingBound}
    (wf : s.graph.WellFormed) (rootHas : s.graph.Has root) (nonempty : bounds ≠ [])
    (has : ∀ b ∈ bounds, s.graph.Has b.right) :
    (∃ emitted t, narrowClass root bounds s = .ok emitted t ∧ Settles root bounds s emitted t) ∨
      ∃ e g, Compresses s.graph g ∧ Misfits root bounds s e ∧
        narrowClass root bounds s = .error (.mismatch e) (s.withGraph g s.journal) := by
  unfold narrowClass
  rw [bind_of_ok (get_run s)]
  cases top : s.graph.parent? root with
  | some p =>
    refine .inl ⟨false, s, ?_, .skipped (by simp [top])⟩
    have rooted : s.graph.isRoot root = false := by simp [isRoot, top]
    rw [rooted]
    rfl
  | none =>
    obtain ⟨g, same, ⟨known, run⟩ | ⟨unknown, run⟩⟩ := choices_go_run wf has {}
    · have rooted : (!s.graph.isRoot root) = false := by simp [isRoot, top]
      have read : kindOf root { s with graph := g } =
          .ok (s.graph.kind? root) { s with graph := g } := by
        rw [kindOf_run (s := { s with graph := g }) (same.has_iff.mpr rootHas), same.kind_eq]
      rw [if_neg (by simp [rooted]), choices, bind_of_ok run]
      simp only
      rw [bind_of_ok read]
      have common : ∀ k, k ∈ commonKinds (grouped s.graph {} bounds) ↔ Common s.graph bounds k :=
        fun k => mem_commonKinds_grouped
      cases resolved : s.graph.kind? root with
      | some k =>
        by_cases fits : Common s.graph bounds k
        · refine .inl ⟨false, _, ?_, .fitting known resolved fits same⟩
          simp only [(common k).mpr fits, if_true]
          rfl
        · obtain ⟨b, mem, outside, found⟩ := originOutside_grouped fits
          refine .inr ⟨_, g, same, .unfit known resolved mem outside, ?_⟩
          simp only [mt (common k).mp fits, if_false, found]
          rfl
      | none =>
        have distinct := commonKinds_nodup (grouped s.graph {} bounds)
        rcases listed : commonKinds (grouped s.graph {} bounds) with
          _ | ⟨only, _ | ⟨second, rest⟩⟩
        · refine .inr ⟨_, g, same, .disjoint known resolved fun k fits => ?_, rfl⟩
          simpa [listed] using (common k).mpr fits
        · have single : ∀ k, Common s.graph bounds k ↔ k = only := fun k => by
            rw [← common, listed, List.mem_singleton]
          -- the kind comes from a bound, so it has a node already
          obtain ⟨b, mem⟩ := List.exists_mem_of_ne_nil bounds nonempty
          obtain ⟨b', _, _, kind⟩ := (single only).mpr rfl b mem
          have made : g.concrete only = (s.graph.root b'.right, g) :=
            same.wellFormed.concrete_eq ((same.kind_eq _).trans kind)
          refine .inl ⟨true, _, ?run, .narrowed (j := ?j) top known resolved single kind same⟩
          case run =>
            dsimp only
            rw [bind_of_ok (log_run _ _), bind_of_ok (concrete_run made)]
            rfl
        · have differ : only ≠ second := by
            rw [listed] at distinct
            exact fun eq => (List.nodup_cons.mp distinct).1 (by simp [eq])
          refine .inl ⟨false, _, rfl, .ambiguous known resolved differ ?_ ?_ same⟩
          · exact (common only).mp (by simp [listed])
          · exact (common second).mp (by simp [listed])
    · refine .inl ⟨false, _, ?_, .waiting unknown same⟩
      have rooted : (!s.graph.isRoot root) = false := by simp [isRoot, top]
      rw [if_neg (by simp [rooted]), choices, bind_of_ok run]
      rfl

/-- A literal that no kind can hold is refused exactly if its class has a kind. -/
theorem checkUnrepresentable_cases {s : Solver} {literal : Handle}
    (wf : s.graph.WellFormed) (has : s.graph.Has literal) (origin : Option Span) :
    ∃ g, Compresses s.graph g ∧
      (s.graph.classKind? literal = none ∧
          checkUnrepresentable literal origin s = .ok () (s.withGraph g s.journal) ∨
        ∃ k, s.graph.classKind? literal = some k ∧
          checkUnrepresentable literal origin s =
            .error (.mismatch ⟨.unfit k, origin⟩) (s.withGraph g s.journal)) := by
  have same := wf.find_compresses literal
  have read : kindOf (s.graph.root literal) { s with graph := (s.graph.find literal).2 } =
      .ok (s.graph.classKind? literal) { s with graph := (s.graph.find literal).2 } :=
    kindOf_root_run wf same has
  refine ⟨_, same, ?_⟩
  unfold checkUnrepresentable
  rw [bind_of_ok (find_run s literal), bind_of_ok read]
  cases hk : s.graph.classKind? literal with
  | none => exact .inl ⟨rfl, rfl⟩
  | some k => exact .inr ⟨k, rfl, rfl⟩

end SolverM

end ConstFun
