import ConstFun.Proofs.Equalities

namespace ConstFun

open TypeGraph

/-- A subtype constraint of a color with a variable on its left, one of the handles `H`. -/
structure Colored (g : TypeGraph) (color : Int) (H : Handle → Prop) (c : Constraint) : Prop where
  sub : c.relation = .subtype color
  var : g.kind? c.left = none
  mem : H c.left

/-- The left sides of any two such constraints are linked by the equalities before the second. -/
def InTime (g : TypeGraph) (color : Int) (H : Handle → Prop) (cs : List Constraint) : Prop :=
  ∀ before c after, cs = before ++ c :: after → Colored g color H c →
    ∀ e ∈ before, Colored g color H e → Links before e.left c.left

namespace InTime

variable {g g' : TypeGraph} {color : Int} {H : Handle → Prop} {cs new : List Constraint}

theorem of_append (inTime : InTime g color H (cs ++ new)) : InTime g color H cs := by
  rintro before c after rfl
  exact inTime before c (after ++ new) (by simp)

theorem congr (kinds : ∀ c ∈ cs, g'.kind? c.left = g.kind? c.left)
    (inTime : InTime g' color H cs) : InTime g color H cs := by
  rintro before c after rfl colored e mem colored'
  have toNew : ∀ c' ∈ before ++ c :: after, Colored g color H c' → Colored g' color H c' :=
    fun c' known old => { old with var := (kinds c' known).trans old.var }
  exact inTime before c after rfl (toNew c (by simp) colored) e mem
    (toNew e (by simp [mem]) colored')

/-- Where the equalities hold, all left sides are in one class, also that of the next constraint. -/
theorem root_eq_next {f : Handle → Handle} {c e : Constraint}
    (inTime : InTime g color H (cs ++ [c]))
    (agree : ∀ c ∈ cs, c.relation = .equal → f c.left = f c.right) (colored : Colored g color H c)
    (mem : e ∈ cs) (colored' : Colored g color H e) : f e.left = f c.left :=
  (inTime cs c [] rfl colored e mem colored').eq_of_agree agree

theorem root_eq {f : Handle → Handle} {c e : Constraint} (inTime : InTime g color H cs)
    (agree : ∀ c ∈ cs, c.relation = .equal → f c.left = f c.right) (mem : c ∈ cs)
    (colored : Colored g color H c) (mem' : e ∈ cs) (colored' : Colored g color H e) :
    f e.left = f c.left := by
  -- the later one of the two is the next constraint of a part of the list
  have later : ∀ before after {c e : Constraint}, cs = before ++ c :: after → e ∈ before →
      Colored g color H c → Colored g color H e → f e.left = f c.left := by
    intro before after c e split mem colored colored'
    have part : cs = before ++ [c] ++ after := by simp [split]
    rw [part] at inTime
    refine inTime.of_append.root_eq_next (fun c' known => agree c' ?_) colored mem colored'
    rw [split]
    exact List.mem_append.mpr (.inl known)
  obtain ⟨before, after, split⟩ := List.append_of_mem mem
  rw [split] at mem'
  rcases List.mem_append.mp mem' with earlier | here | ⟨_, behind⟩
  · exact later before after split earlier colored colored'
  · rfl
  · obtain ⟨between, rest, split'⟩ := List.append_of_mem behind
    have whole : cs = (before ++ c :: between) ++ e :: rest := by
      rw [split, split']
      simp
    exact (later _ rest whole (by simp) colored' colored).symm

end InTime

/-- A set of handles that is made of whole classes. -/
def TypeGraph.Saturated (g : TypeGraph) (H : Handle → Prop) : Prop :=
  ∀ a b, g.root a = g.root b → H a → H b

/-- The handles that are in one class with `h`. -/
def TypeGraph.InClass (g : TypeGraph) (h a : Handle) : Prop := (g.find a).1 = (g.find h).1

/-- The equalities among some solved constraints hold, every bound was parked by one of them, and
the bounds of a color stand for the right sides of all constraints of the color that are in time. -/
structure Solver.Tied (s : Solver) (R : Handle → Handle → Prop) (cs : List Constraint) :
    Prop where
  joined : ∀ c ∈ cs, c.relation = .equal → s.graph.root c.left = s.graph.root c.right
  origin : ∀ r, ∀ b ∈ s.bounds r, ∃ c ∈ cs, c.relation = .subtype b.color ∧
    s.graph.kind? c.left = none ∧ c.left = b.source
  forced : ∀ color H, s.graph.Saturated H → InTime s.graph color H cs →
    ∀ c ∈ cs, Colored s.graph color H c → ∀ b ∈ s.bounds (s.graph.root c.left),
      b.color = color → R b.right c.right

theorem Solver.Tied.keep {s t : Solver} {R R' : Handle → Handle → Prop} {cs : List Constraint}
    (tied : s.Tied R cs) (roots : ∀ h, t.graph.root h = s.graph.root h)
    (pending : t.pending = s.pending)
    (kinds : ∀ c ∈ cs, t.graph.kind? c.left = s.graph.kind? c.left)
    (weaker : ∀ a b, R a b → R' a b) : t.Tied R' cs where
  joined c mem equal := by
    rw [roots, roots]
    exact tied.joined c mem equal
  origin r b mem := by
    unfold bounds at mem
    rw [pending] at mem
    obtain ⟨c, known, sub, var, source⟩ := tied.origin r b mem
    exact ⟨c, known, sub, (kinds c known).trans var, source⟩
  forced color H whole inTime c mem colored b waits isColor := by
    unfold bounds at waits
    rw [pending, roots] at waits
    have whole' : s.graph.Saturated H := fun a b same => whole a b (by rw [roots, roots, same])
    have colored' : Colored s.graph color H c :=
      { colored with var := (kinds c mem).symm.trans colored.var }
    have stands := tied.forced color H whole' (inTime.congr kinds) c mem colored' b waits isColor
    exact weaker _ _ stands

/-- A run that cannot end normally: an equality ahead has different kinds on its sides. -/
def Point.Doomed (p : Point) : Prop :=
  ∃ c ∈ p.ahead, c.relation = .equal ∧ ∃ k k', k ≠ k' ∧
    p.solver.graph.kind? c.left = some k ∧ p.solver.graph.kind? c.right = some k'

/-- What is owed to a constraint in an open class is a bound of its color there. -/
theorem Point.Owes.exists_bound {p : Point} {c : Constraint} {color : Int} (owes : p.Owes c color)
    (unresolved : p.solver.graph.classKind? c.left = none) :
    ∃ b ∈ p.solver.bounds (p.solver.graph.root c.left), b.color = color := by
  cases owes with
  | joined resolved _ => exact absurd unresolved resolved
  | parked _ mem colored _ => exact ⟨_, mem, colored⟩
  | handedOn c' _ _ resolved left _ =>
    rw [classKind?, left] at unresolved
    exact absurd unresolved resolved

namespace Solves

variable {c : Constraint} {s t : Solver} {cs done done' : List Constraint} {r : Nat}

/-- A bound was there before, at the class of its source, or the constraint has parked it. -/
theorem bound_origin (con : s.Consistent) (solved : Solves c s t) {root : Handle} {b : PendingBound}
    (mem : b ∈ t.bounds root) :
    (∃ b₀ ∈ s.bounds (s.graph.root b.source), b₀.color = b.color ∧ b₀.source = b.source ∧
      t.graph.root b.right = t.graph.root b₀.right) ∨
    (c.relation = .subtype b.color ∧ s.graph.kind? c.left = none ∧ c.left = b.source ∧
      b.right = c.right ∧ s.graph.classKind? c.left = none ∧
      ∀ b' ∈ s.bounds (s.graph.root c.left), b'.color ≠ b.color) := by
  have old : b ∈ s.bounds root →
      ∃ b₀ ∈ s.bounds (s.graph.root b.source), b₀.color = b.color ∧ b₀.source = b.source ∧
        t.graph.root b.right = t.graph.root b₀.right := by
    intro known
    refine ⟨b, ?_, rfl, rfl, rfl⟩
    rw [(con.bounds root b known).2.2]
    exact known
  cases solved with
  | equated _ _ _ _ | lifted _ _ _ _ _ | collapsed _ _ _ _ _ | lowered _ _ _ _ _ | agreed _ _
  | joined _ _ _ _ | deferred _ _ _ _ _ _ => exact .inl (old mem)
  | @parked color g j sub var fresh unresolved same =>
    rw [Solver.bounds_park] at mem
    split at mem
    next here =>
      rcases List.mem_append.mp mem with known | new
      · exact .inl (old (here ▸ known))
      · rw [List.mem_singleton] at new
        subst b
        exact .inr ⟨sub, var, rfl, rfl, unresolved, by simpa using fresh⟩
    next => exact .inl (old mem)
  | @merged child target g j _ _ _ apart _ merges =>
    left
    rcases (Solver.mem_bounds_rehomed apart rfl).mp mem with ⟨_, known⟩ | ⟨_, b₀, known, rfl⟩
    · exact old known
    · refine ⟨b₀, ?_, rfl, rfl, merges.wellFormed.root_root _⟩
      rw [(con.bounds child b₀ known).2.2]
      exact known

/-- A constraint that meets a bound of its color equates its right side with the bound's. -/
theorem equates_bound (solved : Solves c s t) {color : Int} (sub : c.relation = .subtype color)
    (var : s.graph.kind? c.left = none) {b : PendingBound}
    (mem : b ∈ s.bounds (s.graph.root c.left)) (colored : b.color = color) :
    ∃ b₀ ∈ s.bounds (s.graph.root c.left), b₀.color = color ∧
      Equates t.store.worklist.toList b₀.right c.right := by
  have clash : ∀ color', c.relation = .subtype color' →
      (s.bounds (s.graph.root c.left)).find? (·.color = color') ≠ none := by
    intro color' sub' fresh
    rw [sub, Relation.subtype.injEq] at sub'
    simp only [List.find?_eq_none, decide_eq_true_eq] at fresh
    exact fresh b mem (colored.trans sub')
  cases solved with
  | @equated color' earlier g j sub' _ found _ =>
    rw [sub, Relation.subtype.injEq] at sub'
    subst color'
    refine ⟨earlier, List.mem_of_find?_eq_some found, by simpa using List.find?_some found, ?_⟩
    refine ⟨⟨earlier.right, .equal, c.right, c.origin⟩, ?_, rfl, rfl, rfl⟩
    simp [(Emits.equal g j _ _ _).worklist]
  | parked sub' _ fresh _ _ | lifted sub' _ fresh _ _ => exact absurd fresh (clash _ sub')
  | collapsed _ kind _ _ _ | lowered _ kind _ _ _ => simp [var] at kind
  | agreed kind _ => simp [var] at kind
  | joined equal _ _ _ | merged equal _ _ _ _ _ | deferred equal _ _ _ _ _ => simp [sub] at equal

/-- An equality that is solved joins its sides, or it dooms the run. -/
theorem joins_or_dooms (wf : s.graph.WellFormed) (solved : Solves c s t)
    (equal : c.relation = .equal) :
    t.graph.root c.left = t.graph.root c.right ∨ Point.Doomed ⟨.solving cs, t, r, done'⟩ := by
  by_cases one : s.graph.root c.left = s.graph.root c.right
  · exact .inl (solved.coarsens wf one)
  rcases solved.joins wf equal with joined | ⟨⟨k, k', left, right⟩, e, waits, isEqual, hl, hr⟩
  · exact .inl joined
  refine .inr ⟨e, by simp [Point.ahead, waits], isEqual, k, k', ?_, ?_, ?_⟩
  · rintro rfl
    exact one (wf.concrete_unique _ _ k left right)
  · change t.graph.kind? e.left = some k
    rw [solved.kind_eq wf, hl]
    exact left
  · change t.graph.kind? e.right = some k'
    rw [solved.kind_eq wf, hr]
    exact right

theorem doomed (con : s.Consistent) (named : c.Names s.graph) (solved : Solves c s t)
    (doom : Point.Doomed ⟨.solving (c :: cs), s, r, done⟩) :
    Point.Doomed ⟨.solving cs, t, r, done'⟩ := by
  have wf := con.forest
  obtain ⟨e, mem, equal, k, k', differ, left, right⟩ := doom
  rcases solved.ahead_kept con named mem with rfl | later
  · -- an equality of two kinds is not solved
    cases solved with
    | equated sub _ _ _ | parked sub _ _ _ _ | lifted sub _ _ _ _ | collapsed sub _ _ _ _
    | lowered sub _ _ _ _ => simp [equal] at sub
    | joined _ var _ _ | merged _ var _ _ _ _ | deferred _ var _ _ _ _ => simp_all
    | agreed left' right' => simp_all
  · exact ⟨e, later, equal, k, k', differ, (solved.kind_eq wf _).trans left,
      (solved.kind_eq wf _).trans right⟩

/-- Solving one more constraint in time: the bound it meets stands for it as for all the others, and
a bound is parked only where no constraint of the color was before. -/
theorem forces (con : s.Consistent) (named : c.Names s.graph) (solved : Solves c s t)
    {known : List Constraint} (obliged : ∀ e ∈ known, ∀ color, e.relation = .subtype color →
      Point.Owes ⟨.solving (c :: cs), s, r, done⟩ e color)
    (tied : s.Tied (Relation.EqvGen (Point.Near ⟨.solving (c :: cs), s, r, done⟩)) known)
    {color : Int} {H : Handle → Prop} (whole : t.graph.Saturated H)
    (inTime : InTime s.graph color H (known ++ [c])) {e : Constraint} (mem : e ∈ known ++ [c])
    (colored : Colored s.graph color H e) {b : PendingBound}
    (waits : b ∈ t.bounds (t.graph.root e.left)) (isColor : b.color = color) :
    Relation.EqvGen (Point.Near ⟨.solving cs, t, r, done'⟩) b.right e.right := by
  have wf := con.forest
  have whole' : s.graph.Saturated H := fun a b same => whole a b (solved.coarsens wf same)
  have source := ((con.solves named.1 named.2 solved).bounds _ b waits).2.2
  have here : H b.source := whole _ _ source.symm colored.mem
  rcases solved.bound_origin con waits with
    ⟨b₀, old, color₀, source₀, right⟩ | ⟨sub, var, left, right, unresolved, fresh⟩
  · obtain ⟨e₀, mem₀, sub₀, var₀, left₀⟩ := tied.origin _ b₀ old
    rw [source₀] at left₀
    rw [color₀, isColor] at sub₀
    have colored₀ : Colored s.graph color H e₀ := ⟨sub₀, var₀, left₀ ▸ here⟩
    have stands : ∀ e' ∈ known, Colored s.graph color H e' →
        ∀ b' ∈ s.bounds (s.graph.root e'.left), b'.color = color →
          Relation.EqvGen (Point.Near ⟨.solving cs, t, r, done'⟩) b'.right e'.right :=
      fun e' known' isColored b' waits' isColor' => solved.nearby con named
        (tied.forced color H whole' inTime.of_append e' known' isColored b' waits' isColor')
    refine .trans _ _ _ (Point.near_of_root right) ?_
    rcases List.mem_append.mp mem with earlier | last
    · have one := inTime.of_append.root_eq tied.joined earlier colored mem₀ colored₀
      rw [← left₀, one] at old
      exact stands e earlier colored b₀ old (color₀.trans isColor)
    · rw [List.mem_singleton] at last
      subst e
      have one := inTime.root_eq_next tied.joined colored mem₀ colored₀
      rw [← left₀] at old
      obtain ⟨b₁, met, color₁, edge⟩ := solved.equates_bound colored.sub colored.var (one ▸ old)
        (color₀.trans isColor)
      rw [← one] at met
      have equated : Relation.EqvGen (Point.Near ⟨.solving cs, t, r, done'⟩) b₁.right c.right := by
        obtain ⟨c', ahead, sides⟩ := edge
        exact .rel _ _ (.inr ⟨c', by simp [Point.ahead, ahead], sides⟩)
      -- both bounds stand for the constraint that parked one of them
      have first := stands e₀ mem₀ colored₀ b₀ old (color₀.trans isColor)
      have second := stands e₀ mem₀ colored₀ b₁ met color₁
      exact .trans _ _ _ first (.trans _ _ _ (.symm _ _ second) equated)
  · rcases List.mem_append.mp mem with earlier | last
    · rw [isColor] at sub
      have colored' : Colored s.graph color H c := ⟨sub, var, left ▸ here⟩
      have one := inTime.root_eq_next tied.joined colored' earlier colored
      rw [classKind?, ← one] at unresolved
      obtain ⟨b', waits', color'⟩ := (obliged e earlier color colored.sub).exists_bound unresolved
      exact absurd (color'.trans isColor.symm) (fresh b' (one ▸ waits'))
    · rw [List.mem_singleton] at last
      subst e
      rw [right]
      exact .refl _

theorem tied (con : s.Consistent) (named : c.Names s.graph) (solved : Solves c s t)
    {known : List Constraint} (obliged : ∀ e ∈ known, ∀ color, e.relation = .subtype color →
      Point.Owes ⟨.solving (c :: cs), s, r, done⟩ e color)
    (tied : s.Tied (Relation.EqvGen (Point.Near ⟨.solving (c :: cs), s, r, done⟩)) known) :
    Point.Doomed ⟨.solving cs, t, r, done'⟩ ∨
      t.Tied (Relation.EqvGen (Point.Near ⟨.solving cs, t, r, done'⟩)) (known ++ [c]) := by
  have wf := con.forest
  by_cases doomed : Point.Doomed ⟨.solving cs, t, r, done'⟩
  · exact .inl doomed
  refine .inr ⟨?_, ?_, ?_⟩
  · intro e mem equal
    rcases List.mem_append.mp mem with earlier | last
    · exact solved.coarsens wf (tied.joined e earlier equal)
    · rw [List.mem_singleton.mp last] at equal ⊢
      exact (solved.joins_or_dooms wf equal).resolve_right doomed
  · intro root b mem
    rcases solved.bound_origin con mem with
      ⟨b₀, old, color₀, source₀, _⟩ | ⟨sub, var, left, _⟩
    · obtain ⟨e, known', sub, var, left⟩ := tied.origin _ b₀ old
      exact ⟨e, by simp [known'], color₀ ▸ sub, (solved.kind_eq wf _).trans var, left.trans source₀⟩
    · exact ⟨c, by simp, sub, (solved.kind_eq wf _).trans var, left⟩
  · intro color H whole inTime e mem colored b waits isColor
    have colored' : Colored s.graph color H e :=
      { colored with var := (solved.kind_eq wf _).symm.trans colored.var }
    exact solved.forces con named obliged tied whole
      (inTime.congr fun c' _ => solved.kind_eq wf c'.left) mem colored' waits isColor

end Solves

section Runs

variable {narrowing : Bool} {first last : Solver} {p q : Point} {before : List Constraint}

/-- The constraints solved in a run and those before it are tied, unless the run must fail. -/
def Point.Tied (before : List Constraint) (p : Point) : Prop :=
  p.Doomed ∨ p.solver.Tied (Relation.EqvGen p.Near) (before ++ p.solved)

theorem Effect.tied (effect : Effect narrowing p q) (con : p.Consistent)
    (runs : ∀ e, q.stage ≠ .failed e) (obliged : p.Obliged before) (tied : p.Tied before) :
    q.Tied before := by
  rcases effect.solves_or_quiet con runs with
    ⟨s, t, r, done, cs, c, named, solved, rfl, rfl⟩ | quiet
  · rcases tied with doomed | tied
    · exact .inl (solved.doomed con.solver named doomed)
    · unfold Point.Tied
      rw [← List.append_assoc]
      exact solved.tied con.solver named (fun e mem => (obliged e mem).2) tied
  · have kinds := quiet.same.kind_eq
    rcases tied with ⟨c, mem, equal, k, k', differ, left, right⟩ | tied
    · exact .inl ⟨c, quiet.ahead c mem, equal, k, k', differ, (kinds _).trans left,
        (kinds _).trans right⟩
    · refine .inr ?_
      rw [quiet.solved]
      exact tied.keep quiet.same.root_eq quiet.pending (fun c _ => kinds c.left)
        fun _ _ => quiet.near

/-- A run that ends normally ties the constraints it has solved to those before it. -/
theorem Passes.tied {r : Nat} {solved : List Constraint}
    (passes : Passes narrowing (Point.start first) ⟨.finished, last, r, solved⟩)
    (con : first.Consistent) (met : ∀ c ∈ before, first.Meets c)
    (ruled : first.Tied (first.graph.root · = first.graph.root ·) before) :
    last.Tied (last.graph.root · = last.graph.root ·) (before ++ solved) := by
  have start : (Point.start first).Tied before := by
    refine .inr ?_
    rw [show (Point.start first).solved = [] from rfl, List.append_nil]
    exact ruled.keep (fun _ => rfl) rfl (fun _ _ => rfl)
      fun _ _ same => Point.near_of_root (p := Point.start first) same
  have tied : Point.Tied before ⟨.finished, last, r, solved⟩ :=
    passes.induct_reached (I := fun p => (∀ e, p.stage ≠ .failed e) → p.Tied before) con.start
      (fun _ => start) (fun path effect tied runs => effect.tied (path.consistent con.start) runs
        (path.obliged con met effect.runs) (tied effect.runs)) (by simp)
  have nothing : Point.ahead ⟨.finished, last, r, solved⟩ = [] := passes.idle con
  rcases tied with ⟨c, mem, _⟩ | tied
  · rw [nothing] at mem
    cases mem
  · exact tied.keep (fun _ => rfl) rfl (fun _ _ => rfl) fun _ _ => Point.root_eq_of_near nothing

end Runs

namespace Solver

/-- The constraints that are not waiting are met and tied. -/
def Ruled (s : Solver) : Prop :=
  ∃ before, before ++ s.store.worklist.toList = s.store.log.toList ∧
    (∀ c ∈ before, s.Meets c) ∧ s.Tied (s.graph.root · = s.graph.root ·) before

variable {s t : Solver} {narrowing : Bool} {count : Nat}

/-- When a run ends normally, every constraint of the log is met and tied. -/
theorem Ruled.run (ruled : s.Ruled) (con : s.Consistent)
    (ran : SolverM.solve narrowing s = .ok count t) :
    t.store.worklist.toList = [] ∧ (∀ c ∈ t.store.log.toList, t.Meets c) ∧
      t.Tied (t.graph.root · = t.graph.root ·) t.store.log.toList := by
  obtain ⟨before, log, met, tied⟩ := ruled
  obtain ⟨empty, met'⟩ := Abides.run ⟨before, log, met⟩ con ran
  obtain ⟨last, r, solved, rfl, passes⟩ := con.finished ran
  have ended := passes.tied con met tied
  rw [← passes.log_eq con log] at ended
  exact ⟨empty, met', ended.keep (fun _ => rfl) rfl (fun _ _ => rfl) fun _ _ => id⟩

theorem Ruled.extend (wf : s.graph.WellFormed) (ruled : s.Ruled) {new : List Constraint}
    (grown : Extends s t new) : t.Ruled := by
  obtain ⟨before, log, met, tied⟩ := ruled
  refine ⟨before, ?_, fun c mem => grown.meets wf (met c mem), ?_⟩
  · rw [grown.emits.worklist, grown.emits.log, ← List.append_assoc, log]
  · refine tied.keep grown.root_eq grown.pending
      (fun c mem => grown.kind_eq (met c mem).names.1) fun a b same => ?_
    rw [grown.root_eq, grown.root_eq, same]

end Solver

namespace Session

namespace Steady

variable {options : TypingOptions} {s : Session}

theorem ruled (steady : Steady options s) : s.toSolver.Ruled := by
  refine steady.induct ⟨[], rfl, by simp, by simp, ?_, by simp⟩
    (fun con ruled => ruled.extend con.forest) ?_
  · simp [Session.new, Solver.bounds, Table.get?]
  · intro narrowing count s t con ruled ran
    obtain ⟨empty, met, tied⟩ := ruled.run con ran
    exact ⟨t.store.log.toList, by rw [empty, List.append_nil], met, tied⟩

/-- When a run ends normally and the constraints of a color were in time at a class, the bounds of
the color at its root have their right sides in one class, and so have all constraints of the color
with a variable of the class on their left. -/
theorem shared_color_forces_rights (steady : Steady options s) {narrowing : Bool} {count : Nat}
    {t : Solver} (ran : SolverM.solve narrowing s.toSolver = .ok count t) (color : Int) (h : Handle)
    (inTime : InTime t.graph color (t.graph.InClass h) t.store.log.toList) :
    (∀ b ∈ t.bounds (t.graph.find h).1, ∀ b' ∈ t.bounds (t.graph.find h).1, b.color = color →
      b'.color = color → (t.graph.find b.right).1 = (t.graph.find b'.right).1) ∧
    ∀ c ∈ t.store.log.toList, ∀ c' ∈ t.store.log.toList,
      Colored t.graph color (t.graph.InClass h) c → Colored t.graph color (t.graph.InClass h) c' →
      (t.graph.find c.right).1 = (t.graph.find c'.right).1 := by
  have con := steady.consistent
  obtain ⟨-, met, tied⟩ := steady.ruled.run con ran
  have whole : t.graph.Saturated (t.graph.InClass h) := fun a b same here => same.symm.trans here
  have stands : ∀ c ∈ t.store.log.toList, Colored t.graph color (t.graph.InClass h) c →
      ∀ b ∈ t.bounds (t.graph.root h), b.color = color →
        t.graph.root b.right = t.graph.root c.right := by
    intro c mem colored b waits
    have here : t.graph.root c.left = t.graph.root h := colored.mem
    rw [← here] at waits
    exact tied.forced color _ whole inTime c mem colored b waits
  refine ⟨fun b mem b' mem' isColor isColor' => ?_, fun c mem c' mem' colored colored' => ?_⟩
  · obtain ⟨c, logged, sub, var, left⟩ := tied.origin _ b mem
    have source := ((con.run ran).bounds _ b mem).2.2
    have colored : Colored t.graph color (t.graph.InClass h) c :=
      ⟨isColor ▸ sub, var, left ▸ source⟩
    exact (stands c logged colored b mem isColor).trans
      (stands c logged colored b' mem' isColor').symm
  · by_cases waits : ∃ b ∈ t.bounds (t.graph.root h), b.color = color
    · obtain ⟨b, parked, isColor⟩ := waits
      exact (stands c mem colored b parked isColor).symm.trans
        (stands c' mem' colored' b parked isColor)
    · -- with no bound of the color at the root, the class is resolved and holds the right sides
      have joined : ∀ c ∈ t.store.log.toList, Colored t.graph color (t.graph.InClass h) c →
          t.graph.root c.right = t.graph.root h := by
        intro c mem colored
        have here : t.graph.root c.left = t.graph.root h := colored.mem
        rcases (met c mem).subtype color colored.sub with ⟨_, same⟩ | ⟨_, b, parked, isColor, _⟩
        · exact same.symm.trans here
        · exact absurd ⟨b, here ▸ parked, isColor⟩ waits
      exact (joined c mem colored).trans (joined c' mem' colored').symm

end Steady

/-- A session with four variables. -/
def fourVariables : Session :=
  let s := { Session.new {} with toSolver := (Session.new {}).toSolver.newVariable.2 }
  let s := { s with toSolver := s.toSolver.newVariable.2 }
  let s := { s with toSolver := s.toSolver.newVariable.2 }
  { s with toSolver := s.toSolver.newVariable.2 }

theorem fourVariables_steady : Steady {} fourVariables := by
  have empty : Steady {} (Session.new {}) := .new
  exact (((empty.operate (.newVariable _)).operate (.newVariable _)).operate
    (.newVariable _)).operate (.newVariable _)

/-- Two variables are equated, and each gets a bound of one color. -/
def joinedFirst : Session :=
  let s := fourVariables.constrainEqual 0 1 none
  let s := s.constrainSubtype 0 2 none (some 5)
  s.constrainSubtype 1 3 none (some 5)

theorem joinedFirst_steady : Steady {} joinedFirst :=
  ((fourVariables_steady.operate (.constrainEqual _ 0 1 none)).operate
    (.constrainSubtype _ 0 2 none (some 5))).operate (.constrainSubtype _ 1 3 none (some 5))

theorem shared_color_forces_rights_joinedFirst :
    ∃ count t, SolverM.solve false joinedFirst.toSolver = .ok count t ∧
      InTime t.graph 5 (t.graph.InClass 0) t.store.log.toList ∧
      (t.graph.find 2).1 = (t.graph.find 3).1 := by
  have logged : (match SolverM.solve false joinedFirst.toSolver with
      | .ok _ t => decide (t.store.log.toList = [⟨0, .equal, 1, none⟩, ⟨0, .subtype 5, 2, none⟩,
          ⟨1, .subtype 5, 3, none⟩, ⟨2, .equal, 3, none⟩] ∧ t.graph.kind? 0 = none ∧
        t.graph.kind? 1 = none ∧ (t.graph.find 1).1 = (t.graph.find 0).1)
      | .error _ _ => false) = true := by decide +kernel
  cases ran : SolverM.solve false joinedFirst.toSolver with
  | error e t => simp [ran] at logged
  | ok count t =>
    simp only [ran, decide_eq_true_eq] at logged
    obtain ⟨log, var, var', one⟩ := logged
    have inTime : InTime t.graph 5 (t.graph.InClass 0) t.store.log.toList := by
      intro before c after split colored e mem colored'
      have sub := colored.sub
      have sub' := colored'.sub
      rw [log] at split
      rcases before with _ | ⟨x, _ | ⟨y, _ | ⟨z, _ | ⟨w, rest⟩⟩⟩⟩ <;>
        simp only [List.nil_append, List.cons_append, List.cons.injEq] at split
      · cases mem
      · obtain ⟨rfl, _⟩ := split
        simp only [List.mem_singleton] at mem
        simp [mem] at sub'
      · obtain ⟨rfl, rfl, rfl, _⟩ := split
        simp only [List.mem_cons, List.not_mem_nil, or_false] at mem
        rcases mem with rfl | rfl
        · simp at sub'
        · exact Links.of_mem (c := ⟨0, .equal, 1, none⟩) (by simp) rfl
      · obtain ⟨_, _, _, rfl, _⟩ := split
        simp at sub
      · simp at split
    have forced := (joinedFirst_steady.shared_color_forces_rights ran 5 0 inTime).2
    rw [log] at forced
    exact ⟨count, t, rfl, inTime, forced ⟨0, .subtype 5, 2, none⟩ (by simp)
      ⟨1, .subtype 5, 3, none⟩ (by simp) ⟨rfl, var, rfl⟩ ⟨rfl, var', one⟩⟩

/-- Two variables get a bound of one color each, and are equated. -/
def joinedLast : Session :=
  let s := fourVariables.constrainSubtype 0 2 none (some 5)
  let s := s.constrainSubtype 1 3 none (some 5)
  s.constrainEqual 0 1 none

/-- Out of time, two bounds of a color at one root keep their right sides apart. -/
theorem shared_color_leaves_rights_apart_joinedLast :
    Steady {} joinedLast ∧ ∃ count t, Session.solve joinedLast = .ok count t ∧
      ∃ b ∈ t.bounds (t.graph.find 0).1, ∃ b' ∈ t.bounds (t.graph.find 0).1, b.color = b'.color ∧
        (t.graph.find b.right).1 ≠ (t.graph.find b'.right).1 := by
  have apart : (match Session.solve joinedLast with
      | .ok _ t => decide (∃ b ∈ t.bounds (t.graph.find 0).1, ∃ b' ∈ t.bounds (t.graph.find 0).1,
        b.color = b'.color ∧ (t.graph.find b.right).1 ≠ (t.graph.find b'.right).1)
      | .error _ _ => false) = true := by decide +kernel
  refine ⟨((fourVariables_steady.operate (.constrainSubtype _ 0 2 none (some 5))).operate
    (.constrainSubtype _ 1 3 none (some 5))).operate (.constrainEqual _ 0 1 none), ?_⟩
  cases ran : Session.solve joinedLast with
  | error e t => simp [ran] at apart
  | ok count t =>
    simp only [ran, decide_eq_true_eq] at apart
    exact ⟨count, t, rfl, apart⟩

end Session

end ConstFun
