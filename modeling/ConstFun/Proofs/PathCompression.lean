import ConstFun.Proofs.Sessions

namespace ConstFun

namespace TypeGraph

variable {g : TypeGraph}

/-- From a handle to a handle along any number of parents. -/
def Leads (g : TypeGraph) : Handle → Handle → Prop :=
  Relation.ReflTransGen fun a b => g.parent? a = some b

theorem Leads.eq_of_top {h x : Handle} (leads : g.Leads h x) (top : g.parent? h = none) :
    x = h := by
  rcases leads.cases_head with rfl | ⟨p, link, _⟩
  · rfl
  · rw [top] at link
    cases link

theorem Leads.of_parent? {h p x : Handle} (leads : g.Leads h x) (link : g.parent? h = some p) :
    x = h ∨ g.Leads p x := by
  rcases leads.cases_head with rfl | ⟨p', link', rest⟩
  · exact .inl rfl
  · rw [link, Option.some.injEq] at link'
    exact .inr (link' ▸ rest)

theorem leads_of_mem_chain {n : Nat} {h x : Handle} (mem : x ∈ g.chain n h) : g.Leads h x := by
  induction n generalizing h with
  | zero => simp [chain] at mem
  | succ n ih =>
    cases hp : g.parent? h with
    | none => simp [chain, hp] at mem
    | some p =>
      simp only [chain, hp, List.mem_cons] at mem
      rcases mem with rfl | mem
      · exact .refl
      · exact .head hp (ih mem)

/-- A chain that is long enough to reach the root holds everything below the root. -/
theorem mem_chain_of_leads {n : Nat} {h x : Handle} (long : g.parent? (g.rootWithin n h) = none)
    (leads : g.Leads h x) (below : g.parent? x ≠ none) : x ∈ g.chain n h := by
  induction n generalizing h with
  | zero =>
    rw [leads.eq_of_top long] at below
    exact absurd long below
  | succ n ih =>
    cases hp : g.parent? h with
    | none =>
      rw [leads.eq_of_top hp] at below
      exact absurd hp below
    | some p =>
      simp only [rootWithin, hp] at long
      simp only [chain, hp, List.mem_cons]
      exact (leads.of_parent? hp).imp_right (ih long)

/-- The links that finding a root follows are those below the root. -/
theorem WellFormed.mem_chain_iff (wf : g.WellFormed) {h x : Handle} :
    x ∈ g.chain g.size h ↔ g.Leads h x ∧ x ≠ g.root h := by
  constructor
  · intro mem
    refine ⟨leads_of_mem_chain mem, ?_⟩
    rintro rfl
    obtain ⟨p, link⟩ := parent?_of_mem_chain mem
    rw [wf.parent?_root h] at link
    cases link
  · rintro ⟨leads, other⟩
    refine mem_chain_of_leads (wf.parent?_root h) leads fun top => other ?_
    have same : g.root x = g.root h := by
      clear other top
      induction leads with
      | refl => rfl
      | tail _ link ih => rw [← wf.root_of_parent? link, ih]
    rw [← same, WellFormed.root_of_root top]

theorem node?_setParents {r : Handle} {hs : List Handle} (known : ∀ h ∈ hs, g.Has h) (x : Handle) :
    (hs.foldl (fun g' h => g'.setParent h r) g).node? x =
      if x ∈ hs then some (.merged r) else g.node? x := by
  induction hs generalizing g with
  | nil => simp
  | cons h hs ih =>
    have has := known h (by simp)
    have known' : ∀ x ∈ hs, (g.setParent h r).Has x := by
      intro x mem
      unfold Has
      rw [size_setParent]
      exact known x (by simp [mem])
    rw [List.foldl_cons, ih known', node?_setParent has]
    by_cases later : x ∈ hs
    · simp [later]
    · by_cases here : x = h <;> simp [here, later]

/-- Finding a root links what is below the root to it, and keeps every other node. -/
theorem WellFormed.node?_find (wf : g.WellFormed) (h x : Handle) :
    (g.Leads h x → x ≠ g.root h → (g.find h).2.node? x = some (.merged (g.root h))) ∧
      (¬g.Leads h x ∨ x = g.root h → (g.find h).2.node? x = g.node? x) := by
  have known : ∀ y ∈ g.chain g.size h, g.Has y := by
    intro y mem
    obtain ⟨p, link⟩ := parent?_of_mem_chain mem
    exact has_of_parent? link
  have nodes : (g.find h).2.node? x =
      if x ∈ g.chain g.size h then some (.merged (g.root h)) else g.node? x :=
    node?_setParents known x
  refine ⟨fun leads other => ?_, fun apart => ?_⟩
  · rw [nodes, if_pos (wf.mem_chain_iff.mpr ⟨leads, other⟩)]
  · rw [nodes, if_neg]
    intro mem
    obtain ⟨leads, other⟩ := wf.mem_chain_iff.mp mem
    exact apart.elim (fun away => away leads) other

/-- A merge that succeeds is of a variable that is a root, and puts it under another node. -/
theorem eq_setParent_of_union {g' : TypeGraph} {child target : Handle}
    (merged : g.union child target = .ok g') :
    g.node? child = some .free ∧ g.Has target ∧ g' = g.setParent child target := by
  unfold union TypeGraph.node at merged
  cases node : g.node? child with
  | none =>
    rw [node] at merged
    cases merged
  | some n =>
    rw [node] at merged
    cases n with
    | concrete k => cases merged
    | merged p => cases merged
    | free =>
      by_cases same : child = target
      · cases (if_pos same).symm.trans merged
      · have linked := (if_neg same).symm.trans merged
        cases known : g.node? target with
        | none =>
          rw [known] at linked
          cases linked
        | some m =>
          rw [known] at linked
          cases linked
          exact ⟨rfl, has_iff.mpr ⟨m, known⟩, rfl⟩

/-- The graphs that the operations lead to, where no class is merged into itself. -/
inductive Reached : TypeGraph → Prop
  | empty : Reached {}
  | newVariable {g : TypeGraph} (reached : Reached g) : Reached g.newVariable.2
  | concrete {g : TypeGraph} (reached : Reached g) (k : Kind) : Reached (g.concrete k).2
  | find {g : TypeGraph} (reached : Reached g) (h : Handle) : Reached (g.find h).2
  | union {g g' : TypeGraph} {child target : Handle} (reached : Reached g)
      (merged : g.union child target = .ok g') (apart : (g.find target).1 ≠ child) : Reached g'

theorem WellFormed.merges_of_union (wf : g.WellFormed) {g' : TypeGraph} {child target : Handle}
    (merged : g.union child target = .ok g') (apart : (g.find target).1 ≠ child) :
    Merges g child target g' := by
  obtain ⟨free, has, rfl⟩ := eq_setParent_of_union merged
  exact wf.merges free has apart

theorem Reached.wellFormed (reached : g.Reached) : g.WellFormed := by
  induction reached with
  | empty => exact Solver.Consistent.empty.forest
  | newVariable _ wf => exact wf.newVariable_grows.wellFormed
  | concrete _ k wf => exact (wf.concrete_grows k).1.wellFormed
  | find _ h wf => exact (wf.find_compresses h).wellFormed
  | union _ merged apart wf => exact (wf.merges_of_union merged apart).wellFormed

end TypeGraph

/-- A merge that fails keeps the graph, and all else that the solver has. -/
theorem SolverM.eq_of_union_error {child target : Handle} {s t : Solver} {e : SolveFailure}
    (failed : SolverM.union child target s = .error e t) : t = s := by
  unfold SolverM.union at failed
  rw [bind_of_ok (get_run s)] at failed
  cases merged : s.graph.union child target with
  | error f =>
    rw [merged] at failed
    cases failed
    rfl
  | ok g =>
    rw [merged] at failed
    cases failed

namespace TypeGraph

/-- Finding a root gives the end of the parents above a handle. It moves no root, it links what is
on the way directly to the root, and it keeps every other node. A merge sends the class of its
variable to the root of its target and keeps the other roots, and a merge that fails changes
nothing. -/
theorem Reached.compression_unseen {g : TypeGraph} (reached : g.Reached) :
    (∀ h, g.Leads h (g.find h).1 ∧ g.isRoot (g.find h).1 = true ∧
      (∀ x, ((g.find h).2.find x).1 = (g.find x).1) ∧
      (∀ x, g.Leads h x → x ≠ (g.find h).1 → (g.find h).2.parent? x = some (g.find h).1) ∧
      ∀ x, ¬g.Leads h x ∨ x = (g.find h).1 → (g.find h).2.node? x = g.node? x) ∧
    (∀ child target g', g.union child target = .ok g' → (g.find target).1 ≠ child → ∀ x,
      (g'.find x).1 = if (g.find x).1 = child then (g.find target).1 else (g.find x).1) ∧
    ∀ child target e (s t : Solver), s.graph = g →
      SolverM.union child target s = .error e t → t = s := by
  have wf := reached.wellFormed
  refine ⟨fun h => ⟨wf.links_to_root h, ?_, (wf.find_compresses h).root_eq, ?_, ?_⟩, ?_, ?_⟩
  · rw [isRoot, show (g.find h).1 = g.root h from rfl, wf.parent?_root h]
    rfl
  · intro x leads other
    exact parent?_eq_some.mpr ((wf.node?_find h x).1 leads other)
  · exact fun x => (wf.node?_find h x).2
  · intro child target g' merged apart
    exact (wf.merges_of_union merged apart).root_eq
  · intro child target e s t _ failed
    exact SolverM.eq_of_union_error failed

/-- Three variables, of which the first two are merged into the next one, and a kind. -/
def ladder : TypeGraph := ⟨#[.merged 1, .merged 2, .free, .concrete .i8]⟩

theorem ladder_reached : ladder.Reached := by
  have made : Reached (concrete ⟨#[.free, .free, .free]⟩ .i8).2 :=
    .concrete (.newVariable (.newVariable (.newVariable .empty))) .i8
  have nodes : (concrete ⟨#[.free, .free, .free]⟩ .i8).2 =
      ⟨#[.free, .free, .free, .concrete .i8]⟩ := by
    decide +kernel
  have upper : union ⟨#[.free, .free, .free, .concrete .i8]⟩ 1 2 =
      .ok ⟨#[.free, .merged 2, .free, .concrete .i8]⟩ :=
    union_eq rfl (by decide) (by decide)
  have lower : union ⟨#[.free, .merged 2, .free, .concrete .i8]⟩ 0 1 = .ok ladder :=
    union_eq rfl (by decide) (by decide)
  rw [nodes] at made
  exact (made.union upper (by decide)).union lower (by decide)

theorem compression_unseen_ladder :
    ladder.Reached ∧ (ladder.find 0).1 = 2 ∧ ladder.Leads 0 1 ∧
      (ladder.find 0).2.parent? 0 = some 2 ∧ ((ladder.find 0).2.find 1).1 = 2 ∧
      ∃ g, ladder.union 2 3 = .ok g ∧ (g.find 0).1 = 3 := by
  obtain ⟨find, union, _⟩ := ladder_reached.compression_unseen
  obtain ⟨_, _, same, linked, _⟩ := find 0
  have found : (ladder.find 0).1 = 2 := rfl
  rw [found] at linked
  have merged : ladder.union 2 3 = .ok (ladder.setParent 2 3) :=
    union_eq rfl (by decide) (by decide)
  exact ⟨ladder_reached, found, .single rfl, linked 0 .refl (by decide), same 1, _, merged,
    union 2 3 _ merged (by decide) 0⟩

end TypeGraph

end ConstFun
