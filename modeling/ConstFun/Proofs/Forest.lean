import ConstFun.Inference.Graph
import Mathlib.Data.Int.Interval
import Mathlib.Logic.Relation

namespace ConstFun

namespace TypeGraph

def Has (g : TypeGraph) (h : Handle) : Prop := 0 ≤ h ∧ h < (g.size : Int)

instance (g : TypeGraph) (h : Handle) : Decidable (g.Has h) :=
  inferInstanceAs (Decidable (_ ∧ _))

/-- The kind of a node itself; a variable has none. -/
def kind? (g : TypeGraph) (h : Handle) : Option Kind := (g.node? h).bind TypeNode.kind?

/-- Ranks fall along every link, a parent is a node, and each kind has one node. -/
structure WellFormed (g : TypeGraph) : Prop where
  ranked : ∃ rank : Handle → Nat, ∀ h p, g.parent? h = some p → rank p < rank h
  parent_has : ∀ h p, g.parent? h = some p → g.Has p
  concrete_unique : ∀ a b k, g.kind? a = some k → g.kind? b = some k → a = b

theorem has_iff {g : TypeGraph} {h : Handle} : g.Has h ↔ ∃ n, g.node? h = some n := by
  unfold Has node? size
  split
  next nonneg =>
    simp only [Array.getElem?_eq_some_iff, exists_comm, exists_eq', exists_prop, and_true]
    rw [Int.toNat_lt nonneg]
    exact and_iff_right nonneg
  next negative => simp [negative]

theorem kindOf_eq {g : TypeGraph} {h : Handle} (has : g.Has h) : g.kindOf h = .ok (g.kind? h) := by
  obtain ⟨n, hn⟩ := has_iff.mp has
  simp [kindOf, node, kind?, hn, Except.map]

theorem kindOf_of_not_has {g : TypeGraph} {h : Handle} (unknown : ¬g.Has h) :
    g.kindOf h = .error ⟨.unknownHandle h, none⟩ := by
  have hn : g.node? h = none := by
    cases hn : g.node? h with
    | none => rfl
    | some n => exact absurd (has_iff.mpr ⟨n, hn⟩) unknown
  simp [kindOf, node, hn, Except.map]

theorem isVariable_eq {g : TypeGraph} {h : Handle} (has : g.Has h) :
    g.isVariable h = .ok (g.kind? h).isNone := by
  simp [isVariable, kindOf_eq has, Except.map]

theorem kind?_eq_some {g : TypeGraph} {h : Handle} {k : Kind} :
    g.kind? h = some k ↔ g.node? h = some (.concrete k) := by
  unfold kind?
  rcases g.node? h with _ | _ | _ | _ <;> simp [TypeNode.kind?]

theorem has_of_kind? {g : TypeGraph} {h : Handle} {k : Kind} (hk : g.kind? h = some k) :
    g.Has h :=
  has_iff.mpr ⟨_, kind?_eq_some.mp hk⟩

theorem parent?_eq_some {g : TypeGraph} {h p : Handle} :
    g.parent? h = some p ↔ g.node? h = some (.merged p) := by
  unfold parent?
  split
  next q hq => simp [hq]
  next other =>
    simp only [reduceCtorEq, false_iff]
    exact other p

theorem has_of_parent? {g : TypeGraph} {h p : Handle} (hp : g.parent? h = some p) : g.Has h :=
  has_iff.mpr ⟨_, parent?_eq_some.mp hp⟩

theorem kind?_of_parent? {g : TypeGraph} {h p : Handle} (hp : g.parent? h = some p) :
    g.kind? h = none := by
  simp [kind?, parent?_eq_some.mp hp, TypeNode.kind?]

theorem parent?_of_kind? {g : TypeGraph} {h : Handle} {k : Kind} (hk : g.kind? h = some k) :
    g.parent? h = none := by
  simp [parent?, kind?_eq_some.mp hk]

theorem node?_eq_free {g : TypeGraph} {h : Handle} :
    g.node? h = some .free ↔ g.Has h ∧ g.kind? h = none ∧ g.parent? h = none := by
  rw [has_iff]
  unfold kind? parent?
  rcases g.node? h with _ | _ | _ | _ <;> simp [TypeNode.kind?]

theorem rootWithin_stable {g : TypeGraph} {n : Nat} {h : Handle}
    (top : g.parent? (g.rootWithin n h) = none) {m : Nat} (le : n ≤ m) :
    g.rootWithin m h = g.rootWithin n h := by
  induction n generalizing h m with
  | zero =>
    cases m with
    | zero => rfl
    | succ m =>
      simp only [rootWithin] at top
      simp [rootWithin, top]
  | succ n ih =>
    obtain ⟨m, rfl⟩ : ∃ l, m = l + 1 := ⟨m - 1, by omega⟩
    cases hp : g.parent? h with
    | none => simp [rootWithin, hp]
    | some p =>
      simp only [rootWithin, hp] at top ⊢
      exact ih top (by omega)

theorem parent?_of_mem_chain {g : TypeGraph} {n : Nat} {h x : Handle} (mem : x ∈ g.chain n h) :
    ∃ p, g.parent? x = some p := by
  induction n generalizing h with
  | zero => simp [chain] at mem
  | succ n ih =>
    cases hp : g.parent? h with
    | none => simp [chain, hp] at mem
    | some p =>
      simp only [chain, hp, List.mem_cons] at mem
      rcases mem with rfl | mem
      · exact ⟨p, hp⟩
      · exact ih mem

theorem chain_length_of_parent? {g : TypeGraph} {n : Nat} {h p : Handle}
    (more : g.parent? (g.rootWithin n h) = some p) : (g.chain (n + 1) h).length = n + 1 := by
  induction n generalizing h with
  | zero =>
    simp only [rootWithin] at more
    simp [chain, more]
  | succ n ih =>
    cases hp : g.parent? h with
    | none => simp [rootWithin, hp] at more
    | some q =>
      simp only [rootWithin, hp] at more
      rw [chain]
      simp [hp, ih more]

theorem rank_le_of_mem_chain {g : TypeGraph} {rank : Handle → Nat}
    (falls : ∀ h p, g.parent? h = some p → rank p < rank h) {n : Nat} {h x : Handle}
    (mem : x ∈ g.chain n h) : rank x ≤ rank h := by
  induction n generalizing h with
  | zero => simp [chain] at mem
  | succ n ih =>
    cases hp : g.parent? h with
    | none => simp [chain, hp] at mem
    | some p =>
      simp only [chain, hp, List.mem_cons] at mem
      rcases mem with rfl | mem
      · exact le_rfl
      · have hx := ih mem
        have hlt := falls h p hp
        omega

theorem chain_nodup {g : TypeGraph} {rank : Handle → Nat}
    (falls : ∀ h p, g.parent? h = some p → rank p < rank h) (n : Nat) (h : Handle) :
    (g.chain n h).Nodup := by
  induction n generalizing h with
  | zero => simp [chain]
  | succ n ih =>
    cases hp : g.parent? h with
    | none => simp [chain, hp]
    | some p =>
      simp only [chain, hp, List.nodup_cons]
      refine ⟨fun mem => ?_, ih p⟩
      have hx := rank_le_of_mem_chain falls mem
      have hlt := falls h p hp
      omega

theorem length_le_size {g : TypeGraph} {hs : List Handle} (distinct : hs.Nodup)
    (known : ∀ h ∈ hs, g.Has h) : hs.length ≤ g.size := by
  have sub : hs.toFinset ⊆ Finset.Ico 0 (g.size : Int) := by
    intro h mem
    exact Finset.mem_Ico.mpr (known h (List.mem_toFinset.mp mem))
  have card := Finset.card_le_card sub
  rw [List.toFinset_card_of_nodup distinct, Int.card_Ico] at card
  omega

namespace WellFormed

variable {g : TypeGraph}

/-- The root of a handle has no parent: a longer chain would visit a node twice. -/
theorem parent?_root (wf : g.WellFormed) (h : Handle) : g.parent? (g.root h) = none := by
  obtain ⟨rank, falls⟩ := wf.ranked
  cases hp : g.parent? (g.root h) with
  | none => rfl
  | some p =>
    have long := chain_length_of_parent? hp
    have short : (g.chain (g.size + 1) h).length ≤ g.size := by
      refine length_le_size (chain_nodup falls _ h) fun x mem => ?_
      obtain ⟨q, hq⟩ := parent?_of_mem_chain mem
      exact has_of_parent? hq
    omega

theorem root_of_parent? (wf : g.WellFormed) {h p : Handle} (hp : g.parent? h = some p) :
    g.root h = g.root p := by
  have more : g.rootWithin (g.size + 1) h = g.root h :=
    rootWithin_stable (wf.parent?_root h) (Nat.le_succ _)
  rw [← more]
  simp [rootWithin, hp, root]

theorem root_of_root {h : Handle} (top : g.parent? h = none) : g.root h = h := by
  unfold root
  cases g.size <;> simp [rootWithin, top]

theorem root_root (wf : g.WellFormed) (h : Handle) : g.root (g.root h) = g.root h :=
  root_of_root (wf.parent?_root h)

theorem root_eq_self_iff (wf : g.WellFormed) {h : Handle} :
    g.root h = h ↔ g.parent? h = none := by
  refine ⟨fun same => ?_, root_of_root⟩
  rw [← same]
  exact wf.parent?_root h

theorem root_of_kind? {h : Handle} {k : Kind} (hk : g.kind? h = some k) : g.root h = h :=
  root_of_root (parent?_of_kind? hk)

/-- Induction from the roots down along the links. -/
theorem induct_up (wf : g.WellFormed) {motive : Handle → Prop}
    (top : ∀ h, g.parent? h = none → motive h)
    (up : ∀ h p, g.parent? h = some p → motive p → motive h) (h : Handle) : motive h := by
  obtain ⟨rank, falls⟩ := wf.ranked
  induction hr : rank h using Nat.strongRecOn generalizing h with
  | ind r ih =>
    cases hp : g.parent? h with
    | none => exact top h hp
    | some p =>
      have hlt := falls h p hp
      exact up h p hp (ih (rank p) (by omega) p rfl)

/-- A function that is constant along links and keeps roots in place gives the roots. -/
theorem root_eq_of_links (wf : g.WellFormed) {f : Handle → Handle}
    (top : ∀ h, g.parent? h = none → f h = h)
    (up : ∀ h p, g.parent? h = some p → f h = f p) (h : Handle) : g.root h = f h := by
  induction h using wf.induct_up with
  | top h hp => rw [root_of_root hp, top h hp]
  | up h p hp ih => rw [wf.root_of_parent? hp, ih, up h p hp]

theorem root_has (wf : g.WellFormed) {h : Handle} (has : g.Has h) : g.Has (g.root h) := by
  induction h using wf.induct_up with
  | top h hp => rwa [root_of_root hp]
  | up h p hp ih =>
    rw [wf.root_of_parent? hp]
    exact ih (wf.parent_has h p hp)

theorem rank_root_le {rank : Handle → Nat}
    (wf : g.WellFormed) (falls : ∀ h p, g.parent? h = some p → rank p < rank h) (h : Handle) :
    rank (g.root h) ≤ rank h := by
  induction h using wf.induct_up with
  | top h hp => rw [root_of_root hp]
  | up h p hp ih =>
    rw [wf.root_of_parent? hp]
    have hlt := falls h p hp
    omega

theorem acyclic (wf : g.WellFormed) (h : Handle) :
    ¬Relation.TransGen (fun a b => g.parent? a = some b) h h := by
  obtain ⟨rank, falls⟩ := wf.ranked
  have down : ∀ {a b}, Relation.TransGen (fun a b => g.parent? a = some b) a b →
      rank b < rank a := by
    intro a b path
    induction path with
    | single link => exact falls _ _ link
    | tail _ link ih =>
      have hlt := falls _ _ link
      omega
  intro circle
  exact lt_irrefl _ (down circle)

end WellFormed

end TypeGraph

end ConstFun
