import ConstFun.Inference.Session
import ConstFun.Proofs.Termination

namespace ConstFun

open TypeGraph

namespace Solver

/-- Kinds were offered to a literal, each under a color of its own. -/
structure Offers (literal : Handle) (origin : Option Span) (kinds : List Kind) (s : Solver)
    (new : List Constraint) (t : Solver) : Prop where
  grows : Grows s.graph t.graph
  emits : Emits s t new
  pending : t.pending = s.pending
  literals : t.unrepresentable = s.unrepresentable
  sides : ∀ c ∈ new, c.left = literal ∧ c.origin = origin ∧
    ∃ k ∈ kinds, t.graph.kind? c.right = some k
  every : ∀ k ∈ kinds, ∃ c ∈ new, t.graph.kind? c.right = some k
  colors : new.Pairwise fun a b => a.relation ≠ b.relation
  range : ∀ c ∈ new, ∃ n : Nat, c.relation = .subtype n ∧ s.store.nextColor ≤ n ∧
    n < t.store.nextColor
  nextColor : s.store.nextColor ≤ t.store.nextColor

theorem offers_offer {s : Solver} (wf : s.graph.WellFormed) (literal : Handle)
    (origin : Option Span) (k : Kind) :
    Offers literal origin [k] s
      [⟨literal, .subtype s.store.nextColor, (s.graph.concrete k).1, origin⟩]
      (s.offer literal origin k) := by
  obtain ⟨grown, kind⟩ := wf.concrete_grows k
  have known : (s.offer literal origin k).graph.kind? (s.graph.concrete k).1 = some k := kind
  have next : (s.offer literal origin k).store.nextColor = s.store.nextColor + 1 := rfl
  exact {
    grows := grown
    emits := ⟨Array.toList_push .., Array.toList_push ..⟩
    pending := rfl
    literals := rfl
    sides := by simp [known]
    every := by simp [known]
    colors := List.pairwise_singleton _ _
    range := by simp [next]
    nextColor := Nat.le_succ _ }

theorem Offers.append {literal : Handle} {origin : Option Span} {ks ks' : List Kind}
    {s t u : Solver} {new new' : List Constraint} (first : Offers literal origin ks s new t)
    (second : Offers literal origin ks' t new' u) :
    Offers literal origin (ks ++ ks') s (new ++ new') u where
  grows := first.grows.trans second.grows
  emits := first.emits.append second.emits
  pending := second.pending.trans first.pending
  literals := second.literals.trans first.literals
  sides c mem := by
    rcases List.mem_append.mp mem with mem | mem
    · obtain ⟨left, same, k, hk, kind⟩ := first.sides c mem
      exact ⟨left, same, k, List.mem_append.mpr (.inl hk), second.grows.kind_kept kind⟩
    · obtain ⟨left, same, k, hk, kind⟩ := second.sides c mem
      exact ⟨left, same, k, List.mem_append.mpr (.inr hk), kind⟩
  every k hk := by
    rcases List.mem_append.mp hk with hk | hk
    · obtain ⟨c, mem, kind⟩ := first.every k hk
      exact ⟨c, List.mem_append.mpr (.inl mem), second.grows.kind_kept kind⟩
    · obtain ⟨c, mem, kind⟩ := second.every k hk
      exact ⟨c, List.mem_append.mpr (.inr mem), kind⟩
  colors := by
    refine List.pairwise_append.mpr ⟨first.colors, second.colors, fun a mem b mem' same => ?_⟩
    obtain ⟨n, color, _, below⟩ := first.range a mem
    obtain ⟨m, color', above, _⟩ := second.range b mem'
    rw [color, color', Relation.subtype.injEq, Int.natCast_inj] at same
    omega
  range c mem := by
    have le := first.nextColor
    have le' := second.nextColor
    rcases List.mem_append.mp mem with mem | mem
    · obtain ⟨n, color, above, below⟩ := first.range c mem
      exact ⟨n, color, above, by omega⟩
    · obtain ⟨n, color, above, below⟩ := second.range c mem
      exact ⟨n, color, by omega, below⟩
  nextColor := first.nextColor.trans second.nextColor

theorem offers_classify {s : Solver} (wf : s.graph.WellFormed) (literal : Handle)
    (origin : Option Span) (kinds : List Kind) :
    ∃ new, Offers literal origin kinds s new
      (kinds.foldl (fun s k => s.offer literal origin k) s) := by
  induction kinds generalizing s with
  | nil =>
    exact ⟨[], .refl wf, .nothing rfl, rfl, rfl, by simp, by simp, .nil, by simp, le_rfl⟩
  | cons k kinds ih =>
    have first := offers_offer wf literal origin k
    obtain ⟨new, rest⟩ := ih first.grows.wellFormed
    exact ⟨_, first.append rest⟩

namespace Consistent

variable {s t : Solver}

theorem empty : ({} : Solver).Consistent where
  forest := ⟨⟨fun _ => 0, by simp [parent?, node?]⟩, by simp [parent?, node?],
    by simp [TypeGraph.kind?, node?]⟩
  distinct := Table.distinct_empty
  nonempty := by simp [Table.get?]
  bounds := by simp [Solver.bounds, Table.get?]
  literals := by simp

theorem grow (con : s.Consistent) (grown : Grows s.graph t.graph) (pending : t.pending = s.pending)
    (literals : t.unrepresentable = s.unrepresentable) : t.Consistent :=
  con.keep grown.wellFormed (fun _ => grown.has) grown.root_eq pending literals

theorem note (con : s.Consistent) {h : Handle} (has : s.graph.Has h) (origin : Option Span)
    (kinds : List Kind) : (s.noteIfUnrepresentable h origin kinds).Consistent := by
  unfold noteIfUnrepresentable
  split
  · refine { con with literals := fun l mem => ?_ }
    have key : l.1 ∈ (s.unrepresentable.insert h origin).entries.map Prod.fst :=
      List.mem_map_of_mem mem
    rcases (Table.mem_keys_insertEntry h origin _ l.1).mp key with eq | old
    · rw [eq]
      exact has
    · obtain ⟨l', mem', eq⟩ := List.mem_map.mp old
      rw [← eq]
      exact con.literals l' mem'
  · exact con

end Consistent

theorem newVariable_has {s : Solver} : s.newVariable.2.graph.Has (s.graph.size : Int) := by
  change s.graph.newVariable.2.Has _
  rw [TypeGraph.has_iff, TypeGraph.newVariable, node?_add]
  simp

theorem noteIfUnrepresentable_eq (s : Solver) (h : Handle) (origin : Option Span)
    (kinds : List Kind) :
    s.noteIfUnrepresentable h origin kinds =
      { s with unrepresentable :=
          if kinds.isEmpty then s.unrepresentable.insert h origin else s.unrepresentable } := by
  unfold noteIfUnrepresentable
  split <;> rfl

end Solver

namespace Session

/-- The session after a literal that was not seen before. -/
def typing (key : Nat) (l : Literal) (value : LiteralValue) (s : Session) : Session :=
  let h : Handle := (s.graph.size : Int)
  let kinds := admissibleKinds s.options.exactUnsigned value
  let offered := kinds.foldl (fun s k => s.offer h l.span k) s.toSolver.newVariable.2
  { s with
    toSolver := { offered with
      unrepresentable :=
        if kinds.isEmpty then offered.unrepresentable.insert h l.span else offered.unrepresentable
      journal := (classified l h kinds).noteIn offered.settings offered.journal }
    literals := s.literals ++ [⟨key, l, h⟩] }

theorem infer_cases (key : Nat) (l : Literal) (s : Session) :
    (∃ known ∈ s.literals, known.key = key ∧ infer key l s = .ok known.handle s) ∨
    (∃ e, literalValue l.text l.isDecimal = .error e ∧
      infer key l s = .error e { s with toSolver := s.toSolver.newVariable.2 }) ∨
    ∃ value, literalValue l.text l.isDecimal = .ok value ∧
      (∀ known ∈ s.literals, known.key ≠ key) ∧
      infer key l s = .ok (s.graph.size : Int) (s.typing key l value) := by
  unfold infer
  split
  next known found =>
    have same := List.find?_some found
    exact .inl ⟨known, List.mem_of_find?_eq_some found, by simpa using same, rfl⟩
  next missing =>
    right
    cases read : literalValue l.text l.isDecimal with
    | error e => exact .inl ⟨e, rfl, rfl⟩
    | ok value =>
      refine .inr ⟨value, rfl, fun known mem => ?_, ?_⟩
      · simpa using List.find?_eq_none.mp missing known mem
      · simp only [typing, Solver.noteIfUnrepresentable_eq, Solver.record, Solver.classify]
        rfl

/-- The session that a computation leaves, whether it ends normally or fails. -/
def after {ε α : Type} (m : EStateM ε Session α) (s : Session) : Session :=
  match m s with
  | .ok _ t => t
  | .error _ t => t

/-- The sessions that operations lead to, with the number of solver runs among them. The sides of
a constraint may be any handles. -/
inductive Driven (options : TypingOptions) : Nat → Session → Prop
  | new : Driven options 0 (Session.new options)
  | infer {n : Nat} {s : Session} (driven : Driven options n s) (key : Nat) (l : Literal) :
      Driven options n (after (Session.infer key l) s)
  | newVariable {n : Nat} {s : Session} (driven : Driven options n s) :
      Driven options n { s with toSolver := s.toSolver.newVariable.2 }
  | concrete {n : Nat} {s : Session} (driven : Driven options n s) (k : Kind) :
      Driven options n { s with toSolver := (s.toSolver.concrete k).2 }
  | constrainEqual {n : Nat} {s : Session} (driven : Driven options n s) (left right : Handle)
      (origin : Option Span) : Driven options n (s.constrainEqual left right origin)
  | constrainSubtype {n : Nat} {s : Session} (driven : Driven options n s) (left right : Handle)
      (origin : Option Span) (color : Option Int) :
      Driven options n (s.constrainSubtype left right origin color)
  | freshColor {n : Nat} {s : Session} (driven : Driven options n s) :
      Driven options n { s with store := s.store.freshColor.2 }
  | reify {n : Nat} {s : Session} (driven : Driven options n s) (h : Handle) :
      Driven options n { s with toSolver := (s.toSolver.reify h).2 }
  | run {n : Nat} {s : Session} (driven : Driven options n s) (narrowing : Bool) :
      Driven options (n + 1) (after (onSolver (SolverM.solve narrowing)) s)
  | solve {n : Nat} {s : Session} (driven : Driven options n s) :
      Driven options (n + 1) (after Session.solve s)

theorem typing_emits {s : Session} (con : s.toSolver.Consistent) (key : Nat) (l : Literal)
    (value : LiteralValue) :
    (s.typing key l value).toSolver.Consistent ∧
      ∃ new, Emits s.toSolver (s.typing key l value).toSolver new := by
  have first : s.toSolver.newVariable.2.Consistent :=
    con.grow con.forest.newVariable_grows rfl rfl
  obtain ⟨new, offers⟩ := Solver.offers_classify first.forest (s.graph.size : Int) l.span
    (admissibleKinds s.options.exactUnsigned value)
  have offered := first.grow offers.grows offers.pending offers.literals
  have noted := offered.note (offers.grows.has Solver.newVariable_has) l.span
    (admissibleKinds s.options.exactUnsigned value)
  rw [Solver.noteIfUnrepresentable_eq] at noted
  exact ⟨noted.compress (.refl noted.forest) rfl rfl, new, offers.emits.log, offers.emits.worklist⟩

theorem solve_eq (s : Session) :
    Session.solve s =
      if s.solved then .error (.fault ⟨.solvedTwice, none⟩) s
      else onSolver (SolverM.solve s.options.narrowing) { s with solved := true } := by
  unfold Session.solve
  rw [bind_of_ok (get_run s)]
  by_cases once : s.solved
  · rw [if_pos once, if_pos once]
    rfl
  · rw [if_neg once, if_neg once, bind_of_ok (modify_run _ s), bind_of_ok (get_run _)]

/-- What every operation keeps of the solver; before the first run all constraints are waiting. -/
structure WellKept (n : Nat) (s : Solver) : Prop where
  consistent : s.Consistent
  queued : s.Queued
  fresh : n = 0 → s.store.log = s.store.worklist

namespace WellKept

variable {n : Nat}

theorem emit {s t : Solver} (kept : WellKept n s) (consistent : t.Consistent)
    {new : List Constraint} (emitted : Emits s t new) : WellKept n t where
  consistent := consistent
  queued := emitted.queued kept.queued
  fresh first := by
    apply Array.toList_inj.mp
    rw [emitted.log, emitted.worklist, kept.fresh first]

theorem constrain {s t : Solver} (kept : WellKept n s) (graph : t.graph = s.graph)
    (pending : t.pending = s.pending) (literals : t.unrepresentable = s.unrepresentable)
    {new : List Constraint} (emitted : Emits s t new) : WellKept n t := by
  have same : Compresses s.graph t.graph := by
    rw [graph]
    exact .refl kept.consistent.forest
  exact kept.emit (kept.consistent.compress same pending literals) emitted

theorem grow {s t : Solver} (kept : WellKept n s) (grown : Grows s.graph t.graph)
    (store : t.store = s.store) (pending : t.pending = s.pending)
    (literals : t.unrepresentable = s.unrepresentable) : WellKept n t :=
  kept.emit (kept.consistent.grow grown pending literals) (.nothing store)

theorem run {s : Session} (kept : WellKept n s.toSolver) (narrowing : Bool) :
    WellKept (n + 1) (after (onSolver (SolverM.solve narrowing)) s).toSolver := by
  have start := kept.consistent.start
  have ends : Ends (SolverM.solve narrowing) s.toSolver (fun _ t => WellKept (n + 1) t)
      (fun _ t => WellKept (n + 1) t) := by
    refine (solve_ends narrowing kept.consistent).imp ?_ ?_
    · rintro count _ ⟨last, r, solved, _, _, rfl, passes⟩
      have ended := (passes.consistent start).solver
      exact ⟨ended.compress (.refl ended.forest) rfl rfl, passes.queued start kept.queued,
        by omega⟩
    · rintro e t ⟨r, solved, passes⟩
      exact ⟨(passes.consistent start).solver, passes.queued start kept.queued, by omega⟩
  unfold after onSolver
  unfold Ends at ends
  cases ran : SolverM.solve narrowing s.toSolver <;> simpa [ran] using ends

end WellKept

theorem Driven.wellKept {options : TypingOptions} {n : Nat} {s : Session}
    (driven : Driven options n s) : WellKept n s.toSolver := by
  induction driven with
  | new => exact ⟨Solver.Consistent.empty, List.nil_suffix, fun _ => rfl⟩
  | @infer n s _ key l kept =>
    rcases infer_cases key l s with ⟨known, _, _, ran⟩ | ⟨e, _, ran⟩ | ⟨value, _, _, ran⟩
    · simpa [after, ran] using kept
    · have next : WellKept n s.toSolver.newVariable.2 :=
        kept.grow kept.consistent.forest.newVariable_grows rfl rfl rfl
      simpa [after, ran] using next
    · obtain ⟨consistent, new, emitted⟩ := typing_emits kept.consistent key l value
      simpa [after, ran] using kept.emit consistent emitted
  | newVariable _ kept => exact kept.grow kept.consistent.forest.newVariable_grows rfl rfl rfl
  | concrete _ k kept => exact kept.grow (kept.consistent.forest.concrete_grows k).1 rfl rfl rfl
  | @constrainEqual n s _ left right origin kept =>
    exact kept.constrain rfl rfl rfl (.equal s.graph s.journal left right origin)
  | @constrainSubtype n s _ left right origin color kept =>
    cases color with
    | none => exact kept.constrain rfl rfl rfl ⟨Array.toList_push .., Array.toList_push ..⟩
    | some color =>
      exact kept.constrain rfl rfl rfl (.subtype s.graph s.journal left right origin color)
  | freshColor _ kept =>
    exact ⟨kept.consistent.compress (.refl kept.consistent.forest) rfl rfl, kept.queued, kept.fresh⟩
  | reify _ h kept =>
    have same := kept.consistent.forest.find_compresses h
    exact kept.emit (kept.consistent.compress same rfl rfl) (.nothing rfl)
  | run _ narrowing kept => exact kept.run narrowing
  | @solve n s _ kept =>
    by_cases once : s.solved
    · have same : after Session.solve s = s := by simp [after, solve_eq, once]
      rw [same]
      exact ⟨kept.consistent, kept.queued, by omega⟩
    · have ran := WellKept.run (s := { s with solved := true }) kept s.options.narrowing
      unfold after at ran ⊢
      rw [solve_eq, if_neg once]
      exact ran

end Session

/-- The parent links form a forest above the kinds, a search for a root ends, and the pending table
keeps at each root the bounds of its class. -/
structure Solver.Invariant (s : Solver) : Prop where
  acyclic : ∀ h, ¬Relation.TransGen (fun a b => s.graph.parent? a = some b) h h
  links : ∀ h p, s.graph.parent? h = some p → s.graph.isVariable h = .ok true ∧ s.graph.Has p
  kinds : ∀ a b k, s.graph.kindOf a = .ok (some k) → s.graph.kindOf b = .ok (some k) →
    a = b ∧ s.graph.isRoot a = true
  keys : ∀ e ∈ s.pending.entries, s.graph.Has e.1 ∧ s.graph.isRoot e.1 = true ∧ e.2 ≠ []
  bounds : ∀ e ∈ s.pending.entries, ∀ b ∈ e.2, (s.graph.find b.source).1 = e.1
  finds : ∀ h, Relation.ReflTransGen (fun a b => s.graph.parent? a = some b) h (s.graph.find h).1 ∧
    s.graph.isRoot (s.graph.find h).1 = true

theorem TypeGraph.kind?_of_kindOf {g : TypeGraph} {h : Handle} {kind : Option Kind}
    (read : g.kindOf h = .ok kind) : g.kind? h = kind := by
  by_cases has : g.Has h
  · rw [kindOf_eq has] at read
    exact Except.ok.inj read
  · rw [kindOf_of_not_has has] at read
    cases read

theorem TypeGraph.WellFormed.links_to_root {g : TypeGraph} (wf : g.WellFormed) (h : Handle) :
    Relation.ReflTransGen (fun a b => g.parent? a = some b) h (g.root h) := by
  induction h using wf.induct_up with
  | top h hp => rw [WellFormed.root_of_root hp]
  | up h p hp ih =>
    rw [wf.root_of_parent? hp]
    exact .head hp ih

theorem Solver.Consistent.invariant {s : Solver} (con : s.Consistent) : s.Invariant where
  acyclic := con.forest.acyclic
  links h p hp := by
    rw [isVariable_eq (has_of_parent? hp), kind?_of_parent? hp]
    exact ⟨rfl, con.forest.parent_has h p hp⟩
  kinds a b k ha hb := by
    have kind := kind?_of_kindOf ha
    refine ⟨con.forest.concrete_unique a b k kind (kind?_of_kindOf hb), ?_⟩
    rw [isRoot, parent?_of_kind? kind]
    rfl
  keys e mem := by
    have kept := con.distinct.mem_entries.mp mem
    obtain ⟨has, top⟩ := con.key_root kept
    rw [isRoot, top]
    exact ⟨has, rfl, con.nonempty e.1 e.2 kept⟩
  bounds e mem b here := by
    rw [← Solver.bounds_of_get? (con.distinct.mem_entries.mp mem)] at here
    exact (con.bounds e.1 b here).2.2
  finds h := by
    rw [isRoot, show (s.graph.find h).1 = s.graph.root h from rfl, con.forest.parent?_root h]
    exact ⟨con.forest.links_to_root h, rfl⟩

namespace Session

/-- The invariant holds at every point of every run, and no run has a fault; the points are those
of the solver's own run, which stops at the last of them. -/
theorem Driven.invariant_throughout {options : TypingOptions} {n : Nat} {s : Session}
    (driven : Driven options n s) (narrowing : Bool)
    (named : ∀ c ∈ s.store.worklist.toList, c.Names s.graph) :
    (∀ p, Passes narrowing (Point.start s.toSolver) p →
      p.solver.Invariant ∧ ∀ f, p.stage ≠ .failed (.fault f)) ∧
    Ends (SolverM.solve narrowing) s.toSolver
      (fun count t => t.Invariant ∧ ∃ last r solved,
        t = last.record (Solver.fixpointEvent r count) ∧
        Passes narrowing (Point.start s.toSolver) ⟨.finished, last, r, solved⟩)
      (fun e t => t.Invariant ∧ (∃ m, e = .mismatch m) ∧ ∃ r solved,
        Passes narrowing (Point.start s.toSolver) ⟨.failed e, t, r, solved⟩) := by
  have con := driven.wellKept.consistent
  have points : ∀ p, Passes narrowing (Point.start s.toSolver) p →
      p.solver.Invariant ∧ ∀ f, p.stage ≠ .failed (.fault f) := by
    intro p passes
    refine ⟨(passes.consistent con.start).solver.invariant, fun f failed => ?_⟩
    obtain ⟨m, mismatch⟩ := passes.mismatch con named failed
    cases mismatch
  refine ⟨points, (solve_ends narrowing con).imp ?_ ?_⟩
  · rintro count _ ⟨last, r, solved, _, _, rfl, passes⟩
    have ended := (passes.consistent con.start).solver
    have final : (last.record (Solver.fixpointEvent r count)).Consistent :=
      ended.compress (.refl ended.forest) rfl rfl
    exact ⟨final.invariant, last, r, solved, rfl, passes⟩
  · rintro e t ⟨r, solved, passes⟩
    exact ⟨(points _ passes).1, passes.mismatch con named rfl, r, solved, passes⟩

/-- Two variables with a bound each under one color, and an equality between them. -/
def twoBounds : Session :=
  let s := { Session.new {} with toSolver := (Session.new {}).toSolver.newVariable.2 }
  let s := { s with toSolver := s.toSolver.newVariable.2 }
  let s := { s with toSolver := (s.toSolver.concrete .i8).2 }
  let s := s.constrainSubtype 0 2 none (some 5)
  let s := s.constrainSubtype 1 2 none (some 5)
  s.constrainEqual 0 1 none

theorem twoBounds_driven : Driven {} 0 twoBounds :=
  .constrainEqual (.constrainSubtype (.constrainSubtype (.concrete
    (.newVariable (.newVariable .new)) .i8) 0 2 none (some 5)) 1 2 none (some 5)) 0 1 none

theorem invariant_throughout_twoBounds :
    (∀ c ∈ twoBounds.store.worklist.toList, c.Names twoBounds.graph) ∧
      ∀ p, Passes true (Point.start twoBounds.toSolver) p →
        p.solver.Invariant ∧ ∀ f, p.stage ≠ .failed (.fault f) :=
  ⟨by decide +kernel, (twoBounds_driven.invariant_throughout true (by decide +kernel)).1⟩

/-- A run terminates, by a mismatch or normally. If it ends normally, it has solved the constraints
that were waiting and those emitted since, in the order of the log and each once, and their number
is bounded by what is known at the start. -/
theorem Driven.solves_log_in_order {options : TypingOptions} {n : Nat} {s : Session}
    (driven : Driven options n s) (narrowing : Bool)
    (named : ∀ c ∈ s.store.worklist.toList, c.Names s.graph) :
    Ends (SolverM.solve narrowing) s.toSolver
      (fun count t => t.store.worklist = #[] ∧
        (∃ before last r solved, s.store.log.toList = before ++ s.store.worklist.toList ∧
          t.store.log.toList = before ++ solved ∧ count = solved.length ∧
          t = last.record (Solver.fixpointEvent r count) ∧
          Passes narrowing (Point.start s.toSolver) ⟨.finished, last, r, solved⟩) ∧
        s.store.log.size + count = s.store.worklist.size + t.store.log.size ∧
        count ≤ 4 * s.store.worklist.size + s.graph.variableNodes.card ∧
        (n = 0 → count = t.store.log.size))
      (fun e t => (∃ m, e = .mismatch m) ∧ ∃ r solved,
        Passes narrowing (Point.start s.toSolver) ⟨.failed e, t, r, solved⟩) := by
  have kept := driven.wellKept
  have con := kept.consistent
  refine (solve_ends narrowing con).imp ?_ ?_
  · rintro count _ ⟨last, r, solved, length, bound, rfl, passes⟩
    have empty : last.store.worklist.toList = [] := passes.idle con
    obtain ⟨before, log⟩ := kept.queued
    rcases passes.onTrack con named with ⟨_, failed⟩ | ⟨_, later, final, order, _⟩
    · cases failed
    have solvedAll : solved = s.store.worklist.toList ++ later := by
      have ahead : solved ++ last.store.worklist.toList = _ := order
      rwa [empty, List.append_nil] at ahead
    have final' : last.store.log.toList = before ++ solved := by
      rw [solvedAll, ← List.append_assoc, log]
      exact final
    have sizes : last.store.log.size = before.length + solved.length := by
      rw [← Array.length_toList, final', List.length_append]
    have sizes' : s.store.log.size = before.length + s.store.worklist.size := by
      rw [← Array.length_toList, ← log, List.length_append]
      rfl
    have none_left : last.store.worklist = #[] := by simpa using empty
    refine ⟨none_left, ⟨before, last, r, solved, log.symm, final', length, rfl, passes⟩,
      ?_, bound, fun first => ?_⟩
    · change s.store.log.size + count = s.store.worklist.size + last.store.log.size
      omega
    · have all := congrArg Array.size (kept.fresh first)
      change count = last.store.log.size
      omega
  · rintro e t ⟨r, solved, passes⟩
    exact ⟨passes.mismatch con named rfl, r, solved, passes⟩

theorem solves_log_in_order_twoBounds :
    (∀ c ∈ twoBounds.store.worklist.toList, c.Names twoBounds.graph) ∧
      ∃ t, SolverM.solve true twoBounds.toSolver = .ok 4 t ∧ t.store.worklist = #[] ∧
        t.store.log.size = 4 := by
  have ends := twoBounds_driven.solves_log_in_order true (by decide +kernel)
  have four : (match SolverM.solve true twoBounds.toSolver with
      | .ok count _ => some count
      | .error _ _ => none) = some 4 := by decide +kernel
  cases ran : SolverM.solve true twoBounds.toSolver with
  | error e t => simp [ran] at four
  | ok count t =>
    simp only [ran, Option.some.injEq] at four
    simp only [Ends, ran] at ends
    subst four
    exact ⟨by decide +kernel, t, rfl, ends.1, (ends.2.2.2.2 trivial).symm⟩

end Session

end ConstFun
