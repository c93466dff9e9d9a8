import ConstFun.Inference.Solver
import ConstFun.Proofs.Classes

namespace ConstFun

open TypeGraph

theorem bind_of_ok {ε σ α β : Type} {m : EStateM ε σ α} {f : α → EStateM ε σ β} {s t : σ} {a : α}
    (first : m s = .ok a t) : (m >>= f) s = f a t := by
  simp [bind, EStateM.bind, first]

theorem bind_of_error {ε σ α β : Type} {m : EStateM ε σ α} {f : α → EStateM ε σ β} {s t : σ}
    {e : ε} (first : m s = .error e t) : (m >>= f) s = .error e t := by
  simp [bind, EStateM.bind, first]

theorem ok_of_bind {ε σ α β : Type} {m : EStateM ε σ α} {f : α → EStateM ε σ β} {s u : σ} {b : β}
    (ran : (m >>= f) s = .ok b u) : ∃ a t, m s = .ok a t ∧ f a t = .ok b u := by
  cases first : m s with
  | ok a t => exact ⟨a, t, rfl, by rwa [bind_of_ok first] at ran⟩
  | error e t =>
    rw [bind_of_error first] at ran
    cases ran

theorem get_run {ε σ : Type} (s : σ) : (get : EStateM ε σ σ) s = .ok s s := rfl

theorem modify_run {ε σ : Type} (f : σ → σ) (s : σ) :
    (modify f : EStateM ε σ Unit) s = .ok () (f s) := rfl

theorem adaptExcept_of_ok {ε ε' σ α : Type} {f : ε → ε'} {m : EStateM ε σ α} {s t : σ} {a : α}
    (ran : m s = .ok a t) : EStateM.adaptExcept f m s = .ok a t := by
  simp [EStateM.adaptExcept, ran]

theorem adaptExcept_of_error {ε ε' σ α : Type} {f : ε → ε'} {m : EStateM ε σ α} {s t : σ} {e : ε}
    (ran : m s = .error e t) : EStateM.adaptExcept f m s = .error (f e) t := by
  simp [EStateM.adaptExcept, ran]

namespace Solver

def withGraph (s : Solver) (graph : TypeGraph) (journal : Array Event) : Solver :=
  { s with graph, journal }

/-- The pending table after the bounds of `child` went to `target`. -/
def rehomed (s : Solver) (child target : Handle) (g : TypeGraph) :
    Table Handle (List PendingBound) :=
  if (s.bounds child).isEmpty then s.pending.erase child
  else
    (s.pending.erase child).addAll target
      ((s.bounds child).map fun b => { b with right := g.root b.right })

end Solver

/-- The effects of a constraint that is solved. -/
inductive Solves (c : Constraint) (s : Solver) : Solver → Prop
  | equated {color : Int} {earlier : PendingBound} {g : TypeGraph} {j : Array Event}
      (sub : c.relation = .subtype color) (var : s.graph.kind? c.left = none)
      (found : (s.bounds (s.graph.root c.left)).find? (·.color = color) = some earlier)
      (same : Compresses s.graph g) :
      Solves c s ((s.withGraph g j).constrainEqual earlier.right c.right c.origin)
  | parked {color : Int} {g : TypeGraph} {j : Array Event}
      (sub : c.relation = .subtype color) (var : s.graph.kind? c.left = none)
      (fresh : (s.bounds (s.graph.root c.left)).find? (·.color = color) = none)
      (unresolved : s.graph.kind? (s.graph.root c.left) = none) (same : Compresses s.graph g) :
      Solves c s
        ((s.withGraph g j).park (s.graph.root c.left) ⟨color, c.right, c.left, c.origin⟩)
  | lifted {color : Int} {k : Kind} {g : TypeGraph} {j : Array Event}
      (sub : c.relation = .subtype color) (var : s.graph.kind? c.left = none)
      (fresh : (s.bounds (s.graph.root c.left)).find? (·.color = color) = none)
      (resolved : s.graph.kind? (s.graph.root c.left) = some k) (same : Compresses s.graph g) :
      Solves c s
        ((s.withGraph g j).constrainSubtype (s.graph.root c.left) c.right c.origin (some color))
  | collapsed {color : Int} {k : Kind} {g : TypeGraph} {j : Array Event}
      (sub : c.relation = .subtype color) (kind : s.graph.kind? c.left = some k)
      (var : s.graph.kind? c.right = none)
      (unresolved : s.graph.kind? (s.graph.root c.right) = none) (same : Compresses s.graph g) :
      Solves c s ((s.withGraph g j).constrainEqual (s.graph.root c.right) c.left c.origin)
  | lowered {color : Int} {k k' : Kind} {g : TypeGraph} {j : Array Event}
      (sub : c.relation = .subtype color) (kind : s.graph.kind? c.left = some k)
      (var : s.graph.kind? c.right = none)
      (resolved : s.graph.kind? (s.graph.root c.right) = some k') (same : Compresses s.graph g) :
      Solves c s
        ((s.withGraph g j).constrainSubtype c.left (s.graph.root c.right) c.origin (some color))
  | agreed {k : Kind} {j : Array Event} (left : s.graph.kind? c.left = some k)
      (right : s.graph.kind? c.right = some k) : Solves c s (s.withGraph s.graph j)
  | joined {g : TypeGraph} {j : Array Event} (equal : c.relation = .equal)
      (var : s.graph.kind? c.left = none ∨ s.graph.kind? c.right = none)
      (one : s.graph.root c.left = s.graph.root c.right) (same : Compresses s.graph g) :
      Solves c s (s.withGraph g j)
  | merged {child target : Handle} {g : TypeGraph} {j : Array Event} (equal : c.relation = .equal)
      (var : s.graph.kind? c.left = none ∨ s.graph.kind? c.right = none)
      (sides : child = s.graph.root c.left ∧ target = s.graph.root c.right ∨
        child = s.graph.root c.right ∧ target = s.graph.root c.left ∧
          s.graph.kind? target ≠ none)
      (apart : child ≠ target) (unresolved : s.graph.kind? child = none)
      (merges : Merges s.graph child target g) :
      Solves c s { s.withGraph g j with pending := s.rehomed child target g }
  | deferred {k k' : Kind} {g : TypeGraph} {j : Array Event} (equal : c.relation = .equal)
      (var : s.graph.kind? c.left = none ∨ s.graph.kind? c.right = none)
      (apart : s.graph.root c.left ≠ s.graph.root c.right)
      (left : s.graph.kind? (s.graph.root c.left) = some k)
      (right : s.graph.kind? (s.graph.root c.right) = some k') (same : Compresses s.graph g) :
      Solves c s
        ((s.withGraph g j).constrainEqual (s.graph.root c.left) (s.graph.root c.right) c.origin)

namespace SolverM

theorem isVariable_run {s : Solver} {h : Handle} (has : s.graph.Has h) :
    isVariable h s = .ok (s.graph.kind? h).isNone s := by
  unfold isVariable
  rw [bind_of_ok (get_run s), TypeGraph.isVariable_eq has]
  rfl

theorem kindOf_run {s : Solver} {h : Handle} (has : s.graph.Has h) :
    kindOf h s = .ok (s.graph.kind? h) s := by
  unfold kindOf
  rw [bind_of_ok (get_run s), TypeGraph.kindOf_eq has]
  rfl

section Roots

variable {s : Solver} {g : TypeGraph} {h : Handle}

theorem isVariable_root_run (wf : s.graph.WellFormed) (same : Compresses s.graph g)
    (has : s.graph.Has h) :
    isVariable (s.graph.root h) { s with graph := g } =
      .ok (s.graph.kind? (s.graph.root h)).isNone { s with graph := g } := by
  rw [isVariable_run (s := { s with graph := g }) (same.has_iff.mpr (wf.root_has has)),
    same.kind_eq]

theorem kindOf_root_run (wf : s.graph.WellFormed) (same : Compresses s.graph g)
    (has : s.graph.Has h) :
    kindOf (s.graph.root h) { s with graph := g } =
      .ok (s.graph.kind? (s.graph.root h)) { s with graph := g } := by
  rw [kindOf_run (s := { s with graph := g }) (same.has_iff.mpr (wf.root_has has)), same.kind_eq]

end Roots

theorem find_run (s : Solver) (h : Handle) :
    find h s = .ok (s.graph.root h) { s with graph := (s.graph.find h).2 } := rfl

theorem mapM_find_run {s : Solver} (wf : s.graph.WellFormed) (bounds : List PendingBound) :
    ∃ g, Compresses s.graph g ∧
      (bounds.mapM fun b => return { b with right := ← find b.right } : SolverM _) s =
        .ok (bounds.map fun b => { b with right := s.graph.root b.right })
          { s with graph := g } := by
  induction bounds generalizing s with
  | nil => exact ⟨s.graph, .refl wf, rfl⟩
  | cons b bounds ih =>
    have first := wf.find_compresses b.right
    obtain ⟨g, rest, run⟩ := ih (s := { s with graph := (s.graph.find b.right).2 }) first.wellFormed
    refine ⟨g, first.trans rest, ?_⟩
    rw [List.mapM_cons, bind_assoc, bind_of_ok (find_run s b.right), pure_bind, bind_of_ok run]
    simp only [List.map_cons, first.root_eq]
    rfl

theorem moveBounds_run {s : Solver} (wf : s.graph.WellFormed) (source target : Handle) :
    ∃ g, Compresses s.graph g ∧
      moveBounds source target s =
        .ok () { s with graph := g, pending := s.rehomed source target g } := by
  unfold moveBounds Solver.rehomed
  rw [bind_of_ok (get_run s), bind_of_ok (modify_run _ s)]
  cases empty : (s.bounds source).isEmpty with
  | true => exact ⟨s.graph, .refl wf, rfl⟩
  | false =>
    obtain ⟨g, same, run⟩ := mapM_find_run
      (s := { s with pending := s.pending.erase source }) wf (s.bounds source)
    refine ⟨g, same, ?_⟩
    simp only [Bool.not_false, if_true, Bool.false_eq_true, if_false, same.root_eq]
    rw [bind_of_ok run]
    rfl

theorem merge_run {s : Solver} {g : TypeGraph} {child target : Handle} (wf : g.WellFormed)
    (free : g.node? child = some .free) (has : g.Has target) (top : g.root target = target)
    (apart : child ≠ target) :
    ∃ g', Merges g child target g' ∧
      merge child target { s with graph := g } =
        .ok () { s.withGraph g' s.journal with pending := s.rehomed child target g' } := by
  have linked := wf.merges free has (by rw [top]; exact apart.symm)
  have union_run : union child target { s with graph := g } =
      .ok () { s with graph := g.setParent child target } := by
    unfold union
    rw [bind_of_ok (get_run _), union_eq free apart has]
    rfl
  obtain ⟨g', same, run⟩ := moveBounds_run
    (s := { s with graph := g.setParent child target }) linked.wellFormed child target
  refine ⟨g', linked.compress same, ?_⟩
  unfold merge
  rw [bind_of_ok union_run, run]
  rfl

theorem compareKinds_run {s : Solver} {c : Constraint} {k k' : Kind}
    (problem : Kind → Kind → TypeProblem) (left : s.graph.kind? c.left = some k)
    (right : s.graph.kind? c.right = some k') :
    compareKinds c problem s =
      if k = k' then .ok () s else .error (.mismatch ⟨problem k k', c.origin⟩) s := by
  unfold compareKinds
  rw [bind_of_ok (kindOf_run (has_of_kind? left)), bind_of_ok (kindOf_run (has_of_kind? right)),
    left, right]
  dsimp only
  by_cases same : k = k'
  · rw [if_neg (not_not.mpr same), if_pos same]
    rfl
  · rw [if_pos same, if_neg same]
    rfl

theorem solveSubtype_cases {s : Solver} {c : Constraint} {color : Int} (wf : s.graph.WellFormed)
    (hl : s.graph.Has c.left) (hr : s.graph.Has c.right) (sub : c.relation = .subtype color) :
    (∃ t, solveSubtype c color s = .ok () t ∧ Solves c s t) ∨
      ∃ k k', k ≠ k' ∧ s.graph.kind? c.left = some k ∧ s.graph.kind? c.right = some k' ∧
        solveSubtype c color s = .error (.mismatch ⟨.notSubtype k k', c.origin⟩) s := by
  have sameLeft := wf.find_compresses c.left
  have sameRight := wf.find_compresses c.right
  unfold solveSubtype
  rw [bind_of_ok (isVariable_run hl)]
  cases left : s.graph.kind? c.left with
  | none =>
    refine .inl ?_
    simp only [Option.isNone_none, if_true]
    rw [bind_of_ok (find_run s c.left), bind_of_ok (get_run _)]
    cases found : (s.bounds (s.graph.root c.left)).find? (·.color = color) with
    | some earlier =>
      have stays : ((s.pending.get? (s.graph.root c.left)).getD []).find? (·.color = color) =
          some earlier := found
      simp only [Solver.bounds, stays]
      exact ⟨_, modify_run _ _, .equated sub left found sameLeft⟩
    | none =>
      have stays : ((s.pending.get? (s.graph.root c.left)).getD []).find? (·.color = color) =
          none := found
      simp only [Solver.bounds, stays]
      rw [bind_of_ok (isVariable_root_run wf sameLeft hl)]
      cases resolved : s.graph.kind? (s.graph.root c.left) with
      | none => exact ⟨_, modify_run _ _, .parked sub left found resolved sameLeft⟩
      | some k => exact ⟨_, modify_run _ _, .lifted sub left found resolved sameLeft⟩
  | some k =>
    simp only [Option.isNone_some, Bool.false_eq_true, if_false]
    rw [bind_of_ok (isVariable_run hr)]
    cases right : s.graph.kind? c.right with
    | none =>
      refine .inl ?_
      simp only [Option.isNone_none, if_true]
      rw [bind_of_ok (find_run s c.right), bind_of_ok (isVariable_root_run wf sameRight hr)]
      cases resolved : s.graph.kind? (s.graph.root c.right) with
      | none => exact ⟨_, modify_run _ _, .collapsed sub left right resolved sameRight⟩
      | some k' => exact ⟨_, modify_run _ _, .lowered sub left right resolved sameRight⟩
    | some k' =>
      simp only [Option.isNone_some, Bool.false_eq_true, if_false]
      rw [compareKinds_run .notSubtype left right]
      by_cases same : k = k'
      · subst k'
        exact .inl ⟨s, by simp, .agreed left right⟩
      · exact .inr ⟨k, k', same, rfl, rfl, by simp [same]⟩

/-- Solving an equality once one of its sides is known to be a variable. -/
def joinClasses (c : Constraint) : SolverM Unit := do
  let left ← find c.left
  let right ← find c.right
  if left = right then return ()
  else if ← isVariable left then merge left right
  else if ← isVariable right then merge right left
  else modify (·.constrainEqual left right c.origin)

theorem solveEqual_eq {s : Solver} {c : Constraint} (hl : s.graph.Has c.left)
    (hr : s.graph.Has c.right) :
    solveEqual c s =
      if s.graph.kind? c.left = none ∨ s.graph.kind? c.right = none then joinClasses c s
      else compareKinds c .notEqual s := by
  unfold solveEqual
  rw [bind_of_ok (isVariable_run hl)]
  cases left : s.graph.kind? c.left with
  | none =>
    simp only [Option.isNone_none, if_true, true_or]
    rw [pure_bind]
    rfl
  | some k =>
    simp only [Option.isNone_some, Bool.false_eq_true, if_false, reduceCtorEq, false_or]
    rw [bind_of_ok (isVariable_run hr)]
    cases s.graph.kind? c.right <;> rfl

theorem find_find_run {s : Solver} (wf : s.graph.WellFormed) (a b : Handle) :
    ∃ g, Compresses s.graph g ∧ ∀ (β : Type) (f : Handle → Handle → SolverM β),
      (find a >>= fun left => find b >>= fun right => f left right) s =
        f (s.graph.root a) (s.graph.root b) { s with graph := g } := by
  have one := wf.find_compresses a
  refine ⟨_, one.trans (one.wellFormed.find_compresses b), fun β f => ?_⟩
  rw [bind_of_ok (find_run s a), bind_of_ok (find_run _ b)]
  simp only [one.root_eq]

theorem joinClasses_solves {s : Solver} {c : Constraint} (wf : s.graph.WellFormed)
    (hl : s.graph.Has c.left) (hr : s.graph.Has c.right) (equal : c.relation = .equal)
    (var : s.graph.kind? c.left = none ∨ s.graph.kind? c.right = none) :
    ∃ t, joinClasses c s = .ok () t ∧ Solves c s t := by
  obtain ⟨g, both, run⟩ := find_find_run wf c.left c.right
  have top : ∀ h, g.root (s.graph.root h) = s.graph.root h :=
    fun h => (both.root_eq _).trans (wf.root_root h)
  have rootHas : ∀ h, s.graph.Has h → g.Has (s.graph.root h) :=
    fun h has => both.has_iff.mpr (wf.root_has has)
  have open_root : ∀ h, s.graph.Has h → s.graph.kind? (s.graph.root h) = none →
      g.node? (s.graph.root h) = some .free := by
    intro h has unresolved
    refine node?_eq_free.mpr ⟨rootHas h has, ?_, ?_⟩
    · rw [both.kind_eq, unresolved]
    · exact (both.parent?_eq_none wf).mpr (wf.parent?_root h)
  unfold joinClasses
  rw [run]
  by_cases same : s.graph.root c.left = s.graph.root c.right
  · rw [if_pos same]
    exact ⟨_, rfl, .joined equal var same both⟩
  · rw [if_neg same, bind_of_ok (isVariable_root_run wf both hl)]
    cases left : s.graph.kind? (s.graph.root c.left) with
    | none =>
      obtain ⟨g', merges, run⟩ := merge_run (s := s) both.wellFormed (open_root _ hl left)
        (rootHas _ hr) (top _) same
      exact ⟨_, run, .merged equal var (.inl ⟨rfl, rfl⟩) same left (.after both merges)⟩
    | some k =>
      simp only [Option.isNone_some, Bool.false_eq_true, if_false]
      rw [bind_of_ok (isVariable_root_run wf both hr)]
      cases right : s.graph.kind? (s.graph.root c.right) with
      | none =>
        obtain ⟨g', merges, run⟩ := merge_run (s := s) both.wellFormed (open_root _ hr right)
          (rootHas _ hl) (top _) (Ne.symm same)
        exact ⟨_, run, .merged equal var (.inr ⟨rfl, rfl, by simp [left]⟩) (Ne.symm same) right
          (.after both merges)⟩
      | some k' => exact ⟨_, modify_run _ _, .deferred equal var same left right both⟩

theorem solveEqual_cases {s : Solver} {c : Constraint} (wf : s.graph.WellFormed)
    (hl : s.graph.Has c.left) (hr : s.graph.Has c.right) (equal : c.relation = .equal) :
    (∃ t, solveEqual c s = .ok () t ∧ Solves c s t) ∨
      ∃ k k', k ≠ k' ∧ s.graph.kind? c.left = some k ∧ s.graph.kind? c.right = some k' ∧
        solveEqual c s = .error (.mismatch ⟨.notEqual k k', c.origin⟩) s := by
  rw [solveEqual_eq hl hr]
  by_cases var : s.graph.kind? c.left = none ∨ s.graph.kind? c.right = none
  · rw [if_pos var]
    exact .inl (joinClasses_solves wf hl hr equal var)
  · rw [if_neg var]
    obtain ⟨leftKnown, rightKnown⟩ := not_or.mp var
    obtain ⟨k, left⟩ := Option.ne_none_iff_exists'.mp leftKnown
    obtain ⟨k', right⟩ := Option.ne_none_iff_exists'.mp rightKnown
    rw [compareKinds_run .notEqual left right]
    by_cases same : k = k'
    · subst k'
      exact .inl ⟨s, by simp, .agreed left right⟩
    · exact .inr ⟨k, k', same, left, right, by simp [same]⟩

end SolverM

theorem Solves.of_record {c : Constraint} {s t : Solver} {e : Event}
    (solved : Solves c (s.record e) t) : Solves c s t := by
  cases solved with
  | equated sub var found same => exact .equated sub var found same
  | parked sub var fresh unresolved same => exact .parked sub var fresh unresolved same
  | lifted sub var fresh resolved same => exact .lifted sub var fresh resolved same
  | collapsed sub kind var unresolved same => exact .collapsed sub kind var unresolved same
  | lowered sub kind var resolved same => exact .lowered sub kind var resolved same
  | agreed left right => exact .agreed left right
  | joined equal var one same => exact .joined equal var one same
  | merged equal var sides apart unresolved merges =>
    exact .merged equal var sides apart unresolved merges
  | deferred equal var apart left right same => exact .deferred equal var apart left right same

/-- Two kinds that met and differ. -/
def Constraint.clash (c : Constraint) (k k' : Kind) : TypeProblem :=
  match c.relation with
  | .subtype _ => .notSubtype k k'
  | .equal => .notEqual k k'

namespace SolverM

theorem render_run {g : TypeGraph} {c : Constraint} (hl : g.Has c.left) (hr : g.Has c.right) :
    ∃ text, c.render g = .ok text := by
  have shown : ∀ h, g.Has h → ∃ text, g.describe h = .ok text := by
    intro h has
    unfold describe
    rw [TypeGraph.kindOf_eq has]
    cases g.kind? h <;> exact ⟨_, rfl⟩
  obtain ⟨left, leftShown⟩ := shown _ hl
  obtain ⟨right, rightShown⟩ := shown _ hr
  unfold Constraint.render
  rw [leftShown, rightShown]
  cases c.relation <;> exact ⟨_, rfl⟩

theorem render_fault {g : TypeGraph} {c : Constraint} (unknown : ¬(g.Has c.left ∧ g.Has c.right)) :
    ∃ f, c.render g = .error f := by
  have fails : ∀ h, ¬g.Has h → ∃ f, g.describe h = .error f := by
    intro h missing
    unfold describe
    rw [TypeGraph.kindOf_of_not_has missing]
    exact ⟨_, rfl⟩
  unfold Constraint.render
  by_cases hl : g.Has c.left
  · obtain ⟨f, fails⟩ := fails c.right fun hr => unknown ⟨hl, hr⟩
    rw [fails]
    cases g.describe c.left <;> exact ⟨_, rfl⟩
  · obtain ⟨f, fails⟩ := fails c.left hl
    rw [fails]
    exact ⟨_, rfl⟩

/-- The act that a constraint's relation calls for. -/
def act (c : Constraint) : SolverM Unit :=
  match c.relation with
  | .subtype color => solveSubtype c color
  | .equal => solveEqual c

theorem act_cases {s : Solver} {c : Constraint} (wf : s.graph.WellFormed)
    (hl : s.graph.Has c.left) (hr : s.graph.Has c.right) :
    (∃ t, act c s = .ok () t ∧ Solves c s t) ∨
      ∃ k k', k ≠ k' ∧ s.graph.kind? c.left = some k ∧ s.graph.kind? c.right = some k' ∧
        act c s = .error (.mismatch ⟨c.clash k k', c.origin⟩) s := by
  unfold act Constraint.clash
  cases related : c.relation with
  | subtype color => exact solveSubtype_cases wf hl hr related
  | equal => exact solveEqual_cases wf hl hr related

theorem step_eq_act {s : Solver} {c : Constraint} {text : String}
    (shown : c.render s.graph = .ok text) :
    step c s =
      match act c (s.record (.trace s!"solving {text}")) with
      | .ok a t => .ok a t
      | .error (.fault f) t => .error (.fault (f.locate none c.origin)) t
      | .error (.mismatch e) t => .error (.mismatch e) t := by
  have inner : (do
      let text ← liftFault (c.render (← get).graph)
      log (.trace s!"solving {text}")
      act c : SolverM Unit) s = act c (s.record (.trace s!"solving {text}")) := by
    rw [bind_of_ok (get_run s), shown]
    rfl
  cases ran : act c (s.record (.trace s!"solving {text}")) with
  | ok a t => exact adaptExcept_of_ok (inner.trans ran)
  | error e t =>
    refine (adaptExcept_of_error (inner.trans ran)).trans ?_
    cases e <;> rfl

/-- A constraint between nodes is solved, or the kinds of its sides differ. -/
theorem step_cases {s : Solver} {c : Constraint} (wf : s.graph.WellFormed)
    (hl : s.graph.Has c.left) (hr : s.graph.Has c.right) :
    (∃ t, step c s = .ok () t ∧ Solves c s t) ∨
      ∃ k k' j, k ≠ k' ∧ s.graph.kind? c.left = some k ∧ s.graph.kind? c.right = some k' ∧
        step c s = .error (.mismatch ⟨c.clash k k', c.origin⟩) (s.withGraph s.graph j) := by
  obtain ⟨text, shown⟩ := render_run hl hr
  rw [step_eq_act shown]
  rcases act_cases (s := s.record (.trace s!"solving {text}")) wf hl hr with
    ⟨t, run, solved⟩ | ⟨k, k', differ, left, right, run⟩
  · exact .inl ⟨t, by rw [run], solved.of_record⟩
  · exact .inr ⟨k, k', _, differ, left, right, by rw [run]; rfl⟩

/-- A constraint that names no node is a fault, found before anything is done. -/
theorem step_unknown {s : Solver} {c : Constraint}
    (unknown : ¬(s.graph.Has c.left ∧ s.graph.Has c.right)) :
    ∃ f, step c s = .error (.fault f) s := by
  obtain ⟨f, fails⟩ := render_fault unknown
  have inner : (do
      let text ← liftFault (c.render (← get).graph)
      log (.trace s!"solving {text}")
      act c : SolverM Unit) s = .error (.fault f) s := by
    rw [bind_of_ok (get_run s), fails]
    rfl
  exact ⟨_, adaptExcept_of_error inner⟩

end SolverM

end ConstFun
