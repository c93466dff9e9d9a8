import ConstFun.Proofs.Forest

namespace ConstFun

namespace TypeGraph

/-- The same nodes in the same classes; only parents inside a class may differ. -/
structure Compresses (g g' : TypeGraph) : Prop where
  wellFormed : g'.WellFormed
  size_eq : g'.size = g.size
  kind_eq : ∀ h, g'.kind? h = g.kind? h
  root_eq : ∀ h, g'.root h = g.root h

/-- The class of `child` joins the class of `target`; nothing else changes. -/
structure Merges (g : TypeGraph) (child target : Handle) (g' : TypeGraph) : Prop where
  wellFormed : g'.WellFormed
  size_eq : g'.size = g.size
  kind_eq : ∀ h, g'.kind? h = g.kind? h
  root_eq : ∀ h, g'.root h = if g.root h = child then g.root target else g.root h

/-- Nodes were added, each as a root of its own. -/
structure Grows (g g' : TypeGraph) : Prop where
  wellFormed : g'.WellFormed
  size_le : g.size ≤ g'.size
  node_eq : ∀ h, g.Has h → g'.node? h = g.node? h
  root_eq : ∀ h, g'.root h = g.root h

theorem size_setParent (g : TypeGraph) (h p : Handle) : (g.setParent h p).size = g.size := by
  simp [setParent, size]

theorem node?_setParent {g : TypeGraph} {h : Handle} (has : g.Has h) (p x : Handle) :
    (g.setParent h p).node? x = if x = h then some (.merged p) else g.node? x := by
  obtain ⟨nonneg, below⟩ := has
  have bound : h.toNat < g.nodes.size := (Int.toNat_lt nonneg).mpr below
  unfold node? setParent
  by_cases hx : 0 ≤ x
  · simp only [hx, if_true, Array.getElem?_setIfInBounds, bound]
    by_cases eq : x = h
    · simp [eq]
    · have apart : h.toNat ≠ x.toNat := by
        intro same
        exact eq (by rw [← Int.toNat_of_nonneg hx, ← same, Int.toNat_of_nonneg nonneg])
      simp [eq, apart]
  · have apart : x ≠ h := by
      rintro rfl
      exact hx nonneg
    simp [hx, apart]

theorem parent?_setParent {g : TypeGraph} {h : Handle} (has : g.Has h) (p x : Handle) :
    (g.setParent h p).parent? x = if x = h then some p else g.parent? x := by
  unfold parent?
  rw [node?_setParent has]
  by_cases eq : x = h <;> simp [eq]

theorem kind?_setParent {g : TypeGraph} {h : Handle} (has : g.Has h) (var : g.kind? h = none)
    (p x : Handle) : (g.setParent h p).kind? x = g.kind? x := by
  unfold kind? at *
  rw [node?_setParent has]
  split
  next eq =>
    subst x
    simp [var, TypeNode.kind?]
  next => rfl

/-- A new parent for a variable keeps the graph well formed if ranks can be found for it. -/
theorem WellFormed.setParent {g : TypeGraph} (wf : g.WellFormed) {h p : Handle} (has : g.Has h)
    (var : g.kind? h = none) (parent : g.Has p) {rank : Handle → Nat} (first : rank p < rank h)
    (others : ∀ x q, x ≠ h → g.parent? x = some q → rank q < rank x) :
    (g.setParent h p).WellFormed where
  ranked := by
    refine ⟨rank, fun x q link => ?_⟩
    rw [parent?_setParent has] at link
    split at link
    next eq =>
      cases link
      rw [eq]
      exact first
    next ne => exact others x q ne link
  parent_has := by
    intro x q link
    rw [parent?_setParent has] at link
    unfold Has
    rw [size_setParent]
    split at link
    next =>
      cases link
      exact parent
    next => exact wf.parent_has x q link
  concrete_unique := by
    intro a b k ha hb
    rw [kind?_setParent has var] at ha hb
    exact wf.concrete_unique a b k ha hb

namespace Compresses

variable {g g₁ g₂ : TypeGraph}

theorem refl (wf : g.WellFormed) : Compresses g g := ⟨wf, rfl, fun _ => rfl, fun _ => rfl⟩

theorem trans (first : Compresses g g₁) (second : Compresses g₁ g₂) : Compresses g g₂ where
  wellFormed := second.wellFormed
  size_eq := second.size_eq.trans first.size_eq
  kind_eq h := (second.kind_eq h).trans (first.kind_eq h)
  root_eq h := (second.root_eq h).trans (first.root_eq h)

theorem has_iff (same : Compresses g g₁) {h : Handle} : g₁.Has h ↔ g.Has h := by
  unfold Has
  rw [same.size_eq]

theorem parent?_eq_none (same : Compresses g g₁) (wf : g.WellFormed) {h : Handle} :
    g₁.parent? h = none ↔ g.parent? h = none := by
  rw [← same.wellFormed.root_eq_self_iff, same.root_eq, wf.root_eq_self_iff]

end Compresses

namespace WellFormed

variable {g : TypeGraph}

theorem root_of_mem_chain (wf : g.WellFormed) {n : Nat} {h x : Handle} (mem : x ∈ g.chain n h) :
    g.root x = g.root h := by
  induction n generalizing h with
  | zero => simp [chain] at mem
  | succ n ih =>
    cases hp : g.parent? h with
    | none => simp [chain, hp] at mem
    | some p =>
      simp only [chain, hp, List.mem_cons] at mem
      rcases mem with rfl | mem
      · rfl
      · rw [wf.root_of_parent? hp]
        exact ih mem

theorem compress (wf : g.WellFormed) {h p : Handle} (hp : g.parent? h = some p) :
    Compresses g (g.setParent h (g.root h)) := by
  have has := has_of_parent? hp
  have var := kind?_of_parent? hp
  obtain ⟨rank, falls⟩ := wf.ranked
  have first : rank (g.root h) < rank h := by
    rw [wf.root_of_parent? hp]
    have hle := wf.rank_root_le falls p
    have hlt := falls h p hp
    omega
  have wf' := wf.setParent has var (wf.root_has has) first fun x q _ link => falls x q link
  refine ⟨wf', size_setParent g h _, kind?_setParent has var _, wf'.root_eq_of_links ?_ ?_⟩
  · intro x top
    rw [parent?_setParent has] at top
    split at top
    next => cases top
    next => exact root_of_root top
  · intro x q link
    rw [parent?_setParent has] at link
    split at link
    next eq =>
      cases link
      rw [eq, wf.root_root]
    next => exact wf.root_of_parent? link

theorem compress_all (wf : g.WellFormed) {r : Handle} {hs : List Handle}
    (linked : ∀ h ∈ hs, g.parent? h ≠ none ∧ g.root h = r) :
    Compresses g (hs.foldl (fun g' h => g'.setParent h r) g) := by
  induction hs generalizing g with
  | nil => exact .refl wf
  | cons h hs ih =>
    obtain ⟨isLinked, same⟩ := linked h (by simp)
    obtain ⟨p, hp⟩ := Option.ne_none_iff_exists'.mp isLinked
    have one := wf.compress hp
    rw [same] at one
    rw [List.foldl_cons]
    refine one.trans (ih one.wellFormed fun x mem => ?_)
    obtain ⟨xLinked, xSame⟩ := linked x (by simp [mem])
    rw [one.root_eq, ne_eq, one.parent?_eq_none wf]
    exact ⟨xLinked, xSame⟩

theorem find_compresses (wf : g.WellFormed) (h : Handle) : Compresses g (g.find h).2 := by
  refine wf.compress_all fun x mem => ⟨?_, wf.root_of_mem_chain mem⟩
  obtain ⟨p, hp⟩ := parent?_of_mem_chain mem
  simp [hp]

theorem merges (wf : g.WellFormed) {child target : Handle} (free : g.node? child = some .free)
    (has : g.Has target) (apart : g.root target ≠ child) :
    Merges g child target (g.setParent child target) := by
  obtain ⟨childHas, var, top⟩ := node?_eq_free.mp free
  obtain ⟨rank, falls⟩ := wf.ranked
  -- the merged class is lifted above the rank of its new parent
  let lifted : Handle → Nat := fun x =>
    if g.root x = child then rank x + rank target + 1 else rank x
  have first : lifted target < lifted child := by
    simp only [lifted, apart, if_false, root_of_root top, if_true]
    omega
  have others : ∀ x q, x ≠ child → g.parent? x = some q → lifted q < lifted x := by
    intro x q _ link
    have hlt := falls x q link
    simp only [lifted, wf.root_of_parent? link]
    split <;> omega
  have wf' := wf.setParent childHas var has first others
  refine ⟨wf', size_setParent g child _, kind?_setParent childHas var _,
    wf'.root_eq_of_links ?_ ?_⟩
  · intro x rootless
    rw [parent?_setParent childHas] at rootless
    split at rootless
    next => cases rootless
    next ne => rw [root_of_root rootless, if_neg ne]
  · intro x q link
    rw [parent?_setParent childHas] at link
    split at link
    next eq =>
      cases link
      rw [eq, root_of_root top, if_pos rfl, if_neg apart]
    next => rw [wf.root_of_parent? link]

end WellFormed

theorem union_eq {g : TypeGraph} {child target : Handle} (free : g.node? child = some .free)
    (apart : child ≠ target) (has : g.Has target) :
    g.union child target = .ok (g.setParent child target) := by
  obtain ⟨n, hn⟩ := TypeGraph.has_iff.mp has
  simp [union, node, free, hn, apart, bind, Except.bind, pure, Except.pure]

namespace Merges

variable {g g₁ g₂ : TypeGraph} {child target : Handle}

theorem compress (first : Merges g child target g₁) (second : Compresses g₁ g₂) :
    Merges g child target g₂ where
  wellFormed := second.wellFormed
  size_eq := second.size_eq.trans first.size_eq
  kind_eq h := (second.kind_eq h).trans (first.kind_eq h)
  root_eq h := (second.root_eq h).trans (first.root_eq h)

theorem after (first : Compresses g g₁) (second : Merges g₁ child target g₂) :
    Merges g child target g₂ where
  wellFormed := second.wellFormed
  size_eq := second.size_eq.trans first.size_eq
  kind_eq h := (second.kind_eq h).trans (first.kind_eq h)
  root_eq h := by rw [second.root_eq, first.root_eq, first.root_eq]

theorem has_iff (merged : Merges g child target g₁) {h : Handle} : g₁.Has h ↔ g.Has h := by
  unfold Has
  rw [merged.size_eq]

end Merges

theorem size_add (g : TypeGraph) (n : TypeNode) : (g.add n).2.size = g.size + 1 := by
  simp [add, size]

theorem node?_add (g : TypeGraph) (n : TypeNode) (x : Handle) :
    (g.add n).2.node? x = if x = (g.size : Int) then some n else g.node? x := by
  unfold node? add size
  by_cases hx : 0 ≤ x
  · simp only [hx, if_true, Array.getElem?_push]
    have same : x.toNat = g.nodes.size ↔ x = (g.nodes.size : Int) := by
      constructor <;> intro eq
      · rw [← eq, Int.toNat_of_nonneg hx]
      · rw [eq, Int.toNat_natCast]
    simp only [same]
  · have apart : x ≠ (g.nodes.size : Int) := by
      rintro rfl
      exact hx (Int.natCast_nonneg _)
    simp [hx, apart]

theorem not_has_size (g : TypeGraph) : ¬g.Has (g.size : Int) := fun has => lt_irrefl _ has.2

theorem parent?_of_not_has {g : TypeGraph} {h : Handle} (unknown : ¬g.Has h) :
    g.parent? h = none := by
  cases hp : g.parent? h with
  | none => rfl
  | some p => exact absurd (has_of_parent? hp) unknown

/-- Adding a root whose kind, if it has one, is new. -/
theorem WellFormed.add_grows {g : TypeGraph} (wf : g.WellFormed) {n : TypeNode}
    (unlinked : ∀ p, n ≠ .merged p) (fresh : ∀ k x, n = .concrete k → g.kind? x ≠ some k) :
    Grows g (g.add n).2 := by
  have parents : ∀ x, (g.add n).2.parent? x = g.parent? x := by
    intro x
    by_cases eq : x = (g.size : Int)
    · rw [eq, parent?_of_not_has g.not_has_size]
      unfold parent?
      rw [node?_add, if_pos rfl]
      cases n with
      | merged p => exact absurd rfl (unlinked p)
      | free => rfl
      | concrete k => rfl
    · unfold parent?
      rw [node?_add, if_neg eq]
  have kinds : ∀ x k, (g.add n).2.kind? x = some k →
      g.kind? x = some k ∨ x = (g.size : Int) ∧ n = .concrete k := by
    intro x k hk
    rw [kind?_eq_some, node?_add] at hk
    split at hk
    next eq => exact .inr ⟨eq, Option.some.inj hk⟩
    next => exact .inl (kind?_eq_some.mpr hk)
  have wf' : (g.add n).2.WellFormed := by
    obtain ⟨rank, falls⟩ := wf.ranked
    refine ⟨⟨rank, fun x p link => falls x p (by rwa [parents] at link)⟩, ?_, ?_⟩
    · intro x p link
      rw [parents] at link
      have has := wf.parent_has x p link
      refine ⟨has.1, lt_of_lt_of_le has.2 ?_⟩
      rw [size_add]
      exact_mod_cast Nat.le_succ _
    · intro a b k ha hb
      rcases kinds a k ha with ha | ⟨ha, hn⟩ <;> rcases kinds b k hb with hb | ⟨hb, hm⟩
      · exact wf.concrete_unique a b k ha hb
      · exact absurd ha (fresh k a hm)
      · exact absurd hb (fresh k b hn)
      · rw [ha, hb]
  refine ⟨wf', by rw [size_add]; omega, ?_, wf'.root_eq_of_links ?_ ?_⟩
  · intro h has
    rw [node?_add, if_neg]
    rintro rfl
    exact g.not_has_size has
  · intro h top
    exact WellFormed.root_of_root (by rwa [parents] at top)
  · intro h p link
    exact wf.root_of_parent? (by rwa [parents] at link)

namespace Grows

variable {g g₁ g₂ : TypeGraph}

theorem refl (wf : g.WellFormed) : Grows g g := ⟨wf, le_rfl, fun _ _ => rfl, fun _ => rfl⟩

theorem has (grown : Grows g g₁) {h : Handle} (old : g.Has h) : g₁.Has h := by
  have := grown.size_le
  exact ⟨old.1, lt_of_lt_of_le old.2 (by exact_mod_cast this)⟩

theorem kind_eq (grown : Grows g g₁) {h : Handle} (old : g.Has h) : g₁.kind? h = g.kind? h := by
  unfold kind?
  rw [grown.node_eq h old]

theorem kind_kept (grown : Grows g g₁) {h : Handle} {k : Kind} (known : g.kind? h = some k) :
    g₁.kind? h = some k :=
  (grown.kind_eq (has_of_kind? known)).trans known

theorem trans (first : Grows g g₁) (second : Grows g₁ g₂) : Grows g g₂ where
  wellFormed := second.wellFormed
  size_le := first.size_le.trans second.size_le
  node_eq h old := (second.node_eq h (first.has old)).trans (first.node_eq h old)
  root_eq h := (second.root_eq h).trans (first.root_eq h)

end Grows

theorem WellFormed.newVariable_grows {g : TypeGraph} (wf : g.WellFormed) :
    Grows g g.newVariable.2 :=
  wf.add_grows (by simp) (by simp)

/-- The node of a kind, with the graph that has it. -/
theorem WellFormed.concrete_grows {g : TypeGraph} (wf : g.WellFormed) (k : Kind) :
    Grows g (g.concrete k).2 ∧ (g.concrete k).2.kind? (g.concrete k).1 = some k := by
  unfold concrete
  split
  next i found =>
    obtain ⟨bound, hit, _⟩ := Array.findIdx?_eq_some_iff_getElem.mp found
    refine ⟨.refl wf, kind?_eq_some.mpr ?_⟩
    simpa [node?, bound] using hit
  next missing =>
    refine ⟨wf.add_grows (by simp) ?_, ?_⟩
    · intro k' x same
      cases same
      intro hk
      have hx := kind?_eq_some.mp hk
      unfold node? at hx
      split at hx
      next =>
        obtain ⟨bound, eq⟩ := Array.getElem?_eq_some_iff.mp hx
        have absent := Array.findIdx?_eq_none_iff.mp missing _ (Array.getElem_mem bound)
        simp [eq] at absent
      next => cases hx
    · rw [kind?_eq_some, node?_add]
      simp [add]

theorem WellFormed.concrete_eq {g : TypeGraph} (wf : g.WellFormed) {h : Handle} {k : Kind}
    (kind : g.kind? h = some k) : g.concrete k = (h, g) := by
  have found := (wf.concrete_grows k).2
  unfold concrete at *
  split
  next i hit =>
    simp only [hit] at found
    rw [wf.concrete_unique _ _ k found kind]
  next missing =>
    have node := kind?_eq_some.mp kind
    unfold node? at node
    split at node
    next =>
      obtain ⟨bound, eq⟩ := Array.getElem?_eq_some_iff.mp node
      have absent := Array.findIdx?_eq_none_iff.mp missing _ (Array.getElem_mem bound)
      simp [eq] at absent
    next => cases node

end TypeGraph

end ConstFun
