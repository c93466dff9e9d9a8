import ConstFun.Proofs.Decision

namespace ConstFun

open TypeGraph

namespace Session

namespace Decided

variable {first : Session} {s : Solver}

/-- Some kind can hold each literal of a class, those apart that no kind can hold. -/
theorem exists_shared (laid : Laid first) (decided : Decided first s) (h : Handle) :
    ∃ k, ∀ l ∈ first.literals, s.graph.root l.handle = s.graph.root h → first.kinds l ≠ [] →
      k ∈ first.kinds l := by
  have rest := decided.rest
  by_cases absent : ∀ l ∈ first.literals, s.graph.root l.handle = s.graph.root h →
      first.kinds l = []
  · exact ⟨.i8, fun l hl here some_kind => absurd (absent l hl here) some_kind⟩
  push Not at absent
  obtain ⟨l, hl, here, some_kind⟩ := absent
  obtain ⟨bounds, kept⟩ := decided.exists_bounds hl some_kind
  rw [here] at kept
  obtain ⟨fits, choices⟩ := decided.settled _ _ kept (rest.known kept)
  have common : ∃ k, Common s.graph bounds k := by
    cases resolved : s.graph.kind? (s.graph.root h) with
    | some k => exact ⟨k, fits k resolved⟩
    | none =>
      obtain ⟨k, _, _, common, _⟩ := choices resolved
      exact ⟨k, common⟩
  obtain ⟨k, common⟩ := common
  exact ⟨k, (rest.common_iff laid kept).mp common⟩

end Decided

/-- When solving with narrowing ends normally, the literals of a class share a kind, those apart
that no kind can hold, and the kind that a class has can hold each literal of the class. -/
theorem Built.unified_literals_share_kind {options : TypingOptions} {s : Session}
    (built : Built options s) (on : options.narrowing = true) {count : Nat} {t : Session}
    (ran : Session.solve s = .ok count t) :
    (∀ h, ∃ k, ∀ l ∈ s.literals, (t.toSolver.reify l.handle).1 = (t.toSolver.reify h).1 →
      s.kinds l ≠ [] → k ∈ s.kinds l) ∧
    ∀ l ∈ s.literals, ∃ kind t', reifyKind l.handle t = .ok kind t' ∧
      ∀ k, kind = some k → k ∈ s.kinds l := by
  have laid := built.laid
  have ends := laid.solve_ends (built.options_eq ▸ on)
  simp only [Ends, ran] at ends
  obtain ⟨decided, _⟩ := ends
  refine ⟨decided.exists_shared laid, fun l hl => ?_⟩
  have has := (decided.nodes l.handle).mpr (laid.isVariable l hl).1
  obtain ⟨t', read⟩ := reifyKind_eq decided.rest.consistent.forest has
  exact ⟨_, t', read, fun k => decided.admits_classKind laid hl⟩

/-- A small literal, unified with one that no kind can hold. -/
def mixedClass : Session :=
  let s := after (Session.infer 0 ⟨"1", false, none, none⟩) (Session.new {})
  let s := after (Session.infer 1 ⟨"18446744073709551617", false, none, none⟩) s
  s.constrainEqual 0 11 none

theorem mixedClass_built : Built {} mixedClass :=
  .constrainEqual (.infer (.infer .new 0 _) 1 _) (by decide +kernel) (by decide +kernel) none

theorem unified_literals_share_kind_mixedClass :
    Built {} mixedClass ∧ ∃ count t, Session.solve mixedClass = .ok count t ∧
      (∃ k, ∀ l ∈ mixedClass.literals, (t.toSolver.reify l.handle).1 = (t.toSolver.reify 0).1 →
        mixedClass.kinds l ≠ [] → k ∈ mixedClass.kinds l) ∧
      ∃ l ∈ mixedClass.literals, mixedClass.kinds l = [] ∧
        ∃ t', reifyKind l.handle t = .ok none t' := by
  have normal : (match Session.solve mixedClass with
      | .ok _ _ => true
      | .error _ _ => false) = true := by decide +kernel
  have unheld : ∃ l ∈ mixedClass.literals, mixedClass.kinds l = [] := by decide +kernel
  refine ⟨mixedClass_built, ?_⟩
  cases ran : Session.solve mixedClass with
  | error e t => simp [ran] at normal
  | ok count t =>
    obtain ⟨shared, given⟩ := mixedClass_built.unified_literals_share_kind rfl ran
    obtain ⟨l, hl, none⟩ := unheld
    obtain ⟨kind, t', read, held⟩ := given l hl
    refine ⟨count, t, rfl, shared 0, l, hl, none, t', ?_⟩
    cases kind with
    | none => exact read
    | some k => simp [none] at held

/-- A session may be solved normally though two literals of a class share no kind. -/
theorem unified_literals_apart_mixedClass :
    Built {} mixedClass ∧ ∃ count t, Session.solve mixedClass = .ok count t ∧
      ∃ l ∈ mixedClass.literals, ∃ l' ∈ mixedClass.literals, l.handle ≠ l'.handle ∧
        (t.toSolver.reify l.handle).1 = (t.toSolver.reify l'.handle).1 ∧
        ¬∃ k, k ∈ mixedClass.kinds l ∧ k ∈ mixedClass.kinds l' := by
  have apart : (match Session.solve mixedClass with
      | .ok _ t => mixedClass.literals.any fun l => mixedClass.literals.any fun l' =>
        decide (l.handle ≠ l'.handle ∧
          (t.toSolver.reify l.handle).1 = (t.toSolver.reify l'.handle).1 ∧
          ¬∃ k ∈ mixedClass.kinds l, k ∈ mixedClass.kinds l')
      | .error _ _ => false) = true := by decide +kernel
  refine ⟨mixedClass_built, ?_⟩
  cases ran : Session.solve mixedClass with
  | error e t => simp [ran] at apart
  | ok count t =>
    simp only [ran, List.any_eq_true, decide_eq_true_eq] at apart
    exact ⟨count, t, rfl, apart⟩

end Session

end ConstFun
