import ConstFun.Proofs.Sessions

namespace ConstFun

open TypeGraph

/-- The kinds that can hold a literal; none if its text is no number. -/
def Literal.kinds (exact : Bool) (l : Literal) : List Kind :=
  match literalValue l.text l.isDecimal with
  | .ok value => admissibleKinds exact value
  | .error _ => []

namespace Session

/-- The kinds that can hold a literal under the options of the session. -/
def kinds (s : Session) (l : TypedLiteral) : List Kind := l.literal.kinds s.options.exactUnsigned

/-- The constraint offers a kind to a literal. -/
structure Offer (g : TypeGraph) (l : TypedLiteral) (k : Kind) (c : Constraint) : Prop where
  left : c.left = l.handle
  origin : c.origin = l.literal.span
  right : g.kind? c.right = some k
  subtype : c.relation ≠ .equal

/-- The sessions built of literals, variables, kinds and equalities between nodes. -/
inductive Built (options : TypingOptions) : Session → Prop
  | new : Built options (Session.new options)
  | infer {s : Session} (built : Built options s) (key : Nat) (l : Literal) :
      Built options (after (Session.infer key l) s)
  | newVariable {s : Session} (built : Built options s) :
      Built options { s with toSolver := s.toSolver.newVariable.2 }
  | concrete {s : Session} (built : Built options s) (k : Kind) :
      Built options { s with toSolver := (s.toSolver.concrete k).2 }
  | constrainEqual {s : Session} (built : Built options s) {left right : Handle}
      (hasLeft : s.graph.Has left) (hasRight : s.graph.Has right) (origin : Option Span) :
      Built options (s.constrainEqual left right origin)

/-- How the constraints of a session lie before it is solved. -/
structure Laid (s : Session) : Prop where
  forest : s.graph.WellFormed
  unlinked : ∀ h, s.graph.parent? h = none
  pending : s.pending = {}
  waiting : s.store.log = s.store.worklist
  unsolved : s.solved = false
  named : ∀ c ∈ s.store.worklist.toList, c.Names s.graph
  offers : ∀ c ∈ s.store.worklist.toList, c.relation ≠ .equal →
    ∃ l ∈ s.literals, ∃ k ∈ s.kinds l, Offer s.graph l k c
  offered : ∀ l ∈ s.literals, ∀ k ∈ s.kinds l, ∃ c ∈ s.store.worklist.toList, Offer s.graph l k c
  order : s.store.worklist.toList.Pairwise fun a b => a.relation = .equal → b.relation ≠ .equal →
    a.left ≠ b.left ∧ a.right ≠ b.left
  colors : s.store.worklist.toList.Pairwise fun a b => a.relation ≠ .equal → a.relation ≠ b.relation
  below : ∀ c ∈ s.store.worklist.toList, ∀ n, c.relation = .subtype n → n < s.store.nextColor
  refused : ∀ e, e ∈ s.unrepresentable.entries ↔
    ∃ l ∈ s.literals, s.kinds l = [] ∧ e = (l.handle, l.literal.span)
  isVariable : ∀ l ∈ s.literals, s.graph.Has l.handle ∧ s.graph.kind? l.handle = none
  distinct : (s.literals.map (·.handle)).Nodup

theorem Offer.imp {g g' : TypeGraph} {l : TypedLiteral} {k : Kind} {c : Constraint}
    (grown : Grows g g') (offer : Offer g l k c) : Offer g' l k c :=
  { offer with right := grown.kind_kept offer.right }

namespace Laid

variable {s : Session}

theorem new (options : TypingOptions) : Laid (Session.new options) where
  forest := Solver.Consistent.empty.forest
  unlinked := by simp [Session.new, parent?, node?]
  pending := rfl
  waiting := rfl
  unsolved := rfl
  named := by simp [Session.new]
  offers := by simp [Session.new]
  offered := by simp [Session.new]
  order := .nil
  colors := .nil
  below := by simp [Session.new]
  refused := by simp [Session.new]
  isVariable := by simp [Session.new]
  distinct := .nil

theorem eq_of_handle (laid : Laid s) {l l' : TypedLiteral} (hl : l ∈ s.literals)
    (hl' : l' ∈ s.literals) (same : l.handle = l'.handle) : l = l' :=
  List.inj_on_of_nodup_map laid.distinct hl hl' same

theorem parent?_of_grows (laid : Laid s) {g : TypeGraph} (grown : Grows s.graph g) (h : Handle) :
    g.parent? h = none := by
  rw [← grown.wellFormed.root_eq_self_iff, grown.root_eq, laid.forest.root_eq_self_iff]
  exact laid.unlinked h

theorem grow (laid : Laid s) {g : TypeGraph} (grown : Grows s.graph g) :
    Laid { s with graph := g } :=
  { laid with
    forest := grown.wellFormed
    unlinked := laid.parent?_of_grows grown
    named := fun c mem => (laid.named c mem).imp fun _ => grown.has
    offers := fun c mem sub => by
      obtain ⟨l, hl, k, hk, offer⟩ := laid.offers c mem sub
      exact ⟨l, hl, k, hk, offer.imp grown⟩
    offered := fun l hl k hk => by
      obtain ⟨c, mem, offer⟩ := laid.offered l hl k hk
      exact ⟨c, mem, offer.imp grown⟩
    isVariable := fun l mem => by
      obtain ⟨has, var⟩ := laid.isVariable l mem
      exact ⟨grown.has has, (grown.kind_eq has).trans var⟩ }

theorem constrainEqual (laid : Laid s) {left right : Handle} (hasLeft : s.graph.Has left)
    (hasRight : s.graph.Has right) (origin : Option Span) :
    Laid (s.constrainEqual left right origin) := by
  have emitted : Emits s.toSolver (s.constrainEqual left right origin).toSolver
      [⟨left, .equal, right, origin⟩] := .equal s.graph s.journal left right origin
  exact { laid with
    waiting := by
      apply Array.toList_inj.mp
      rw [emitted.log, emitted.worklist, laid.waiting]
    named := fun c mem => by
      rw [emitted.worklist] at mem
      rcases List.mem_append.mp mem with old | new
      · exact laid.named c old
      · rw [List.mem_singleton.mp new]
        exact ⟨hasLeft, hasRight⟩
    offers := fun c mem sub => by
      rw [emitted.worklist] at mem
      rcases List.mem_append.mp mem with old | new
      · exact laid.offers c old sub
      · rw [List.mem_singleton.mp new] at sub
        exact absurd rfl sub
    offered := fun l hl k hk => by
      obtain ⟨c, mem, offer⟩ := laid.offered l hl k hk
      exact ⟨c, emitted.worklist ▸ List.mem_append.mpr (.inl mem), offer⟩
    order := by
      rw [emitted.worklist, List.pairwise_append]
      refine ⟨laid.order, List.pairwise_singleton _ _, fun a _ b mem _ sub => ?_⟩
      rw [List.mem_singleton.mp mem] at sub
      exact absurd rfl sub
    colors := by
      rw [emitted.worklist, List.pairwise_append]
      refine ⟨laid.colors, List.pairwise_singleton _ _, fun a _ b mem sub => ?_⟩
      rw [List.mem_singleton.mp mem]
      exact sub
    below := fun c mem n color => by
      rw [emitted.worklist] at mem
      rcases List.mem_append.mp mem with old | new
      · exact laid.below c old n color
      · rw [List.mem_singleton.mp new] at color
        cases color }

/-- A new literal is a variable of its own, with its offers behind all other constraints. -/
theorem typing (laid : Laid s) (key : Nat) {l : Literal} {value : LiteralValue}
    (read : literalValue l.text l.isDecimal = .ok value) : Laid (s.typing key l value) := by
  have first := laid.grow laid.forest.newVariable_grows
  obtain ⟨new, offers⟩ := Solver.offers_classify (s := s.toSolver.newVariable.2) first.forest
    (s.graph.size : Int) l.span (admissibleKinds s.options.exactUnsigned value)
  have grown := first.grow offers.grows
  have worklist : (s.typing key l value).store.worklist.toList =
      s.store.worklist.toList ++ new := offers.emits.worklist
  have has := offers.grows.has Solver.newVariable_has
  have fresh : ∀ x, s.graph.Has x → x ≠ (s.graph.size : Int) := fun x old eq =>
    s.graph.not_has_size (eq ▸ old)
  have handles : ∀ l' ∈ s.literals, l'.handle ≠ (s.graph.size : Int) := fun l' mem =>
    fresh _ (laid.isVariable l' mem).1
  have own : s.kinds ⟨key, l, (s.graph.size : Int)⟩ =
      admissibleKinds s.options.exactUnsigned value := by
    simp [kinds, Literal.kinds, read]
  have noted : (s.typing key l value).unrepresentable.entries = s.unrepresentable.entries ++
      if (admissibleKinds s.options.exactUnsigned value).isEmpty then
        [((s.graph.size : Int), l.span)] else [] := by
    have absent : (s.graph.size : Int) ∉ s.unrepresentable.entries.map Prod.fst := by
      intro mem
      obtain ⟨e, mem, eq⟩ := List.mem_map.mp mem
      obtain ⟨l', hl, _, rfl⟩ := (laid.refused e).mp mem
      exact handles l' hl eq
    unfold Session.typing
    simp only [offers.literals]
    split
    · exact Table.insertEntry_of_fresh absent l.span
    · exact (List.append_nil _).symm
  exact {
    forest := grown.forest
    unlinked := grown.unlinked
    pending := offers.pending.trans laid.pending
    waiting := by
      apply Array.toList_inj.mp
      refine offers.emits.log.trans (Eq.trans ?_ worklist.symm)
      exact congrArg (·.toList ++ new) laid.waiting
    unsolved := laid.unsolved
    named := fun c mem => by
      rw [worklist] at mem
      rcases List.mem_append.mp mem with mem | mem
      · exact grown.named c mem
      · obtain ⟨left, _, k, _, right⟩ := offers.sides c mem
        exact ⟨left ▸ has, has_of_kind? right⟩
    offers := fun c mem sub => by
      rw [worklist] at mem
      rcases List.mem_append.mp mem with mem | mem
      · obtain ⟨l', hl, k, hk, offer⟩ := grown.offers c mem sub
        exact ⟨l', List.mem_append.mpr (.inl hl), k, hk, offer⟩
      · obtain ⟨left, origin, k, hk, right⟩ := offers.sides c mem
        exact ⟨⟨key, l, (s.graph.size : Int)⟩, List.mem_append.mpr (.inr (by simp)), k,
          own.symm ▸ hk, left, origin, right, sub⟩
    offered := fun l' hl k hk => by
      rw [worklist]
      rcases List.mem_append.mp hl with hl | hl
      · obtain ⟨c, mem, offer⟩ := grown.offered l' hl k hk
        exact ⟨c, List.mem_append.mpr (.inl mem), offer⟩
      · rw [List.mem_singleton.mp hl] at hk ⊢
        obtain ⟨c, mem, right⟩ := offers.every k (own ▸ hk)
        obtain ⟨left, origin, _⟩ := offers.sides c mem
        obtain ⟨n, color, _⟩ := offers.range c mem
        exact ⟨c, List.mem_append.mpr (.inr mem), left, origin, right, by simp [color]⟩
    order := by
      rw [worklist, List.pairwise_append]
      refine ⟨laid.order, offers.colors.imp_of_mem ?_, ?_⟩
      · intro a b mem _ _ equal
        obtain ⟨n, color, _⟩ := offers.range a mem
        simp [color] at equal
      · intro a mem b mem' _ _
        rw [(offers.sides b mem').1]
        exact ⟨fresh _ (laid.named a mem).1, fresh _ (laid.named a mem).2⟩
    colors := by
      rw [worklist, List.pairwise_append]
      refine ⟨laid.colors, offers.colors.imp_of_mem fun _ _ differ _ => differ, ?_⟩
      intro a mem b mem' _ same
      obtain ⟨n, color, above, _⟩ := offers.range b mem'
      have below := laid.below a mem n (same.trans color)
      have above' : s.store.nextColor ≤ n := above
      omega
    below := fun c mem n color => by
      rw [worklist] at mem
      rcases List.mem_append.mp mem with mem | mem
      · have below := laid.below c mem n color
        have le := offers.nextColor
        exact below.trans_le (by exact_mod_cast le)
      · obtain ⟨m, color', _, below⟩ := offers.range c mem
        rw [color, Relation.subtype.injEq] at color'
        rw [color']
        exact_mod_cast below
    refused := fun e => by
      rw [noted, List.mem_append, laid.refused]
      change _ ↔ ∃ l' ∈ s.literals ++ [⟨key, l, (s.graph.size : Int)⟩], s.kinds l' = [] ∧ _
      simp only [List.mem_append, List.mem_singleton, or_and_right, exists_or, exists_eq_left, own]
      refine or_congr Iff.rfl ?_
      cases admissibleKinds s.options.exactUnsigned value <;> simp
    isVariable := fun l' mem => by
      rcases List.mem_append.mp mem with mem | mem
      · exact grown.isVariable l' mem
      · rw [List.mem_singleton.mp mem]
        refine ⟨has, (offers.grows.kind_eq Solver.newVariable_has).trans ?_⟩
        change s.graph.newVariable.2.kind? (s.graph.size : Int) = none
        simp [TypeGraph.newVariable, TypeGraph.kind?, node?_add, TypeNode.kind?]
    distinct := by
      rw [show (s.typing key l value).literals = s.literals ++ [⟨key, l, (s.graph.size : Int)⟩]
        from rfl, List.map_append, List.nodup_append]
      refine ⟨laid.distinct, by simp, fun a mem b mem' => ?_⟩
      obtain ⟨l', hl, rfl⟩ := List.mem_map.mp mem
      rw [List.mem_singleton.mp mem']
      exact handles l' hl }

end Laid

theorem Built.laid {options : TypingOptions} {s : Session} (built : Built options s) : Laid s := by
  induction built with
  | new => exact Laid.new options
  | @infer s _ key l laid =>
    rcases infer_cases key l s with ⟨known, _, _, ran⟩ | ⟨e, _, ran⟩ | ⟨value, read, _, ran⟩
    · simpa [after, ran] using laid
    · have next : Laid { s with toSolver := s.toSolver.newVariable.2 } :=
        laid.grow laid.forest.newVariable_grows
      simpa [after, ran] using next
    · simpa [after, ran] using laid.typing key read
  | newVariable _ laid => exact laid.grow laid.forest.newVariable_grows
  | concrete _ k laid => exact laid.grow (laid.forest.concrete_grows k).1
  | constrainEqual _ hasLeft hasRight origin laid =>
    exact laid.constrainEqual hasLeft hasRight origin

theorem Built.options_eq {options : TypingOptions} {s : Session} (built : Built options s) :
    s.options = options := by
  induction built with
  | @infer s _ key l same =>
    rcases infer_cases key l s with ⟨known, _, _, ran⟩ | ⟨e, _, ran⟩ | ⟨value, _, _, ran⟩ <;>
      simpa [after, ran, Session.typing] using same
  | new => rfl
  | newVariable _ same | concrete _ _ same | constrainEqual _ _ _ _ same => exact same

end Session

end ConstFun
