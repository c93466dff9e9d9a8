import ConstFun.Inference.Declarations
import ConstFun.Proofs.Decision

namespace ConstFun

open TypeGraph

namespace FunctionDecl

/-- The kind that a function's return type names. -/
def declaredKind? (f : FunctionDecl) : Option Kind :=
  f.returnType.bind fun t => Kind.ofSpelling? t.name

/-- The kinds that can hold a function's body. -/
def kinds (exact : Bool) (f : FunctionDecl) : List Kind :=
  match f.body with
  | .literal l => l.kinds exact
  | .other _ => []

/-- A function's return type names a kind that cannot hold its body. -/
def Unfit (exact : Bool) (f : FunctionDecl) (k : Kind) : Prop :=
  f.declaredKind? = some k ∧ k ∉ f.kinds exact

/-- The kind of a function's body: the declared one, or else the only one that can hold it. -/
def bodyKind? (exact : Bool) (f : FunctionDecl) : Option Kind :=
  match f.declaredKind?, f.kinds exact with
  | some k, _ => some k
  | none, [k] => some k
  | none, _ => none

/-- The function as it was before its body was given a type. -/
def untyped (f : FunctionDecl) : FunctionDecl :=
  match f.body with
  | .literal l => { f with body := .literal { l with type := none } }
  | .other _ => f

@[simp] theorem name_untyped (f : FunctionDecl) : f.untyped.name = f.name := by
  unfold untyped
  split <;> rfl

@[simp] theorem returnType_untyped (f : FunctionDecl) : f.untyped.returnType = f.returnType := by
  unfold untyped
  split <;> rfl

@[simp] theorem exportAs_untyped (f : FunctionDecl) : f.untyped.exportAs = f.exportAs := by
  unfold untyped
  split <;> rfl

@[simp] theorem place_untyped (f : FunctionDecl) : f.untyped.span = f.span := by
  unfold untyped
  split <;> rfl

theorem untyped_of_literal {f : FunctionDecl} {l : Literal} (body : f.body = .literal l)
    (new : l.type = none) (h : Handle) :
    ({ f with body := .literal { l with type := some h } } : FunctionDecl).untyped = f := by
  cases f
  cases l
  subst body new
  rfl

theorem span_untyped (f : FunctionDecl) : f.untyped.body.span = f.body.span := by
  unfold untyped
  split
  next l body =>
    rw [body]
    rfl
  next => rfl

theorem unfit_untyped (exact : Bool) (f : FunctionDecl) (k : Kind) :
    f.untyped.Unfit exact k ↔ f.Unfit exact k := by
  unfold Unfit declaredKind? kinds untyped
  cases body : f.body <;> simp [body, Literal.kinds]

/-- A function's body is a literal that has a value, and no type yet. -/
def Readable (f : FunctionDecl) : Prop :=
  ∃ l value, f.body = .literal l ∧ l.type = none ∧ literalValue l.text l.isDecimal = .ok value

end FunctionDecl

namespace Decl

def untyped : Decl → Decl
  | .function f => .function f.untyped
  | .exportOf e => .exportOf e

def function? : Decl → Option FunctionDecl
  | .function f => some f
  | .exportOf _ => none

end Decl

/-- A literal as the body of a function that was typed. -/
def TypedLiteral.body (l : TypedLiteral) : Body :=
  .literal { l.literal with type := some l.handle }

theorem TypedLiteral.body_type (l : TypedLiteral) : l.body.type = some l.handle := rfl

theorem TypedLiteral.exists_of_bodies {fs : List FunctionDecl} {ls : List TypedLiteral}
    (bodies : fs.map (·.body) = ls.map TypedLiteral.body) {f : FunctionDecl} (hf : f ∈ fs) :
    ∃ l ∈ ls, f.body = l.body := by
  have mem : f.body ∈ fs.map (·.body) := List.mem_map_of_mem hf
  rw [bodies] at mem
  obtain ⟨l, hl, body⟩ := List.mem_map.mp mem
  exact ⟨l, hl, body.symm⟩

namespace Session

/-- The session holds the bodies of the functions in their order, and its equalities are those that
their return types ask for. -/
structure Declared (fs : List FunctionDecl) (s : Session) : Prop where
  laid : Laid s
  keys : ∀ l ∈ s.literals, l.key < s.literals.length
  bodies : fs.map (·.body) = s.literals.map TypedLiteral.body
  equated : ∀ f ∈ fs, ∀ h k, f.body.type = some h → f.declaredKind? = some k →
    ∃ c, Equates s.store.log.toList h c ∧ s.graph.kind? c = some k
  equates : ∀ a b, Equates s.store.log.toList a b → ∃ f ∈ fs, f.body.type = some a ∧
    ∃ k, f.declaredKind? = some k ∧ s.graph.kind? b = some k

theorem typing_grows {s : Session} (wf : s.graph.WellFormed) (key : Nat) (l : Literal)
    (value : LiteralValue) :
    Grows s.graph (s.typing key l value).graph ∧
      ∃ new, (s.typing key l value).store.log.toList = s.store.log.toList ++ new ∧
        ∀ c ∈ new, c.relation ≠ .equal := by
  have first := wf.newVariable_grows
  obtain ⟨new, offers⟩ := Solver.offers_classify (s := s.toSolver.newVariable.2) first.wellFormed
    (s.graph.size : Int) l.span (admissibleKinds s.options.exactUnsigned value)
  refine ⟨first.trans offers.grows, new, offers.emits.log, fun c mem => ?_⟩
  obtain ⟨n, color, _⟩ := offers.range c mem
  simp [color]

namespace Declared

variable {fs : List FunctionDecl} {s : Session}

theorem new (options : TypingOptions) : Declared [] (Session.new options) where
  laid := .new options
  keys := by simp [Session.new]
  bodies := rfl
  equated := by simp
  equates := by simp [Session.new, Equates]

theorem log (declared : Declared fs s) (journal : Array Event) : Declared fs { s with journal } :=
  { declared with laid := { declared.laid with } }

theorem record (declared : Declared fs s) (e : Event) : Declared fs (s.record e) := declared.log _

theorem exists_literal (declared : Declared fs s) {f : FunctionDecl} (hf : f ∈ fs) :
    ∃ l ∈ s.literals, f.body = l.body :=
  TypedLiteral.exists_of_bodies declared.bodies hf

theorem literal_at (declared : Declared fs s) {f : FunctionDecl} (hf : f ∈ fs) {h : Handle}
    (type : f.body.type = some h) : ∃ l ∈ s.literals, l.handle = h ∧ f.body = l.body := by
  obtain ⟨l, hl, body⟩ := declared.exists_literal hf
  rw [body, l.body_type, Option.some.injEq] at type
  exact ⟨l, hl, type, body⟩

/-- A literal is typed as the body of a function without a return type. -/
theorem typing (declared : Declared fs s) {f : FunctionDecl} {l : Literal} {value : LiteralValue}
    (read : literalValue l.text l.isDecimal = .ok value) (plain : f.declaredKind? = none)
    (body : f.body = .literal { l with type := some (s.graph.size : Int) }) :
    Declared (fs ++ [f]) (s.typing s.literals.length l value) := by
  obtain ⟨grown, new, log, sub⟩ := typing_grows declared.laid.forest s.literals.length l value
  refine ⟨declared.laid.typing _ read, fun l' mem => ?_, ?_, ?_, ?_⟩
  · have length : (s.typing s.literals.length l value).literals.length = s.literals.length + 1 :=
      List.length_append
    rw [length]
    rcases List.mem_append.mp mem with old | mem
    · exact (declared.keys l' old).trans (Nat.lt_succ_self _)
    · rw [List.mem_singleton.mp mem]
      exact Nat.lt_succ_self _
  · rw [List.map_append, declared.bodies]
    change _ = (s.literals ++ [_]).map TypedLiteral.body
    rw [List.map_append]
    simp [body, TypedLiteral.body]
  · intro f' mem h k type kind
    rcases List.mem_append.mp mem with old | mem
    · obtain ⟨c, equates, known⟩ := declared.equated f' old h k type kind
      exact ⟨c, log ▸ equates.append, grown.kind_kept known⟩
    · rw [List.mem_singleton.mp mem, plain] at kind
      cases kind
  · rintro a b ⟨c, mem, equal, sides⟩
    rw [log] at mem
    rcases List.mem_append.mp mem with old | mem
    · obtain ⟨f', mem', type, k, kind, known⟩ := declared.equates a b ⟨c, old, equal, sides⟩
      exact ⟨f', List.mem_append.mpr (.inl mem'), type, k, kind, grown.kind_kept known⟩
    · exact absurd equal (sub c mem)

/-- A return type is added to the last function. -/
theorem annotate {f g : FunctionDecl} (declared : Declared (fs ++ [g]) s) {h : Handle}
    (typed : g.body.type = some h) (same : f.body = g.body) (plain : g.declaredKind? = none)
    {t : TypeName} {k : Kind} (named : Kind.ofSpelling? t.name = some k)
    (kind : f.declaredKind? = some k) : Declared (fs ++ [f]) (s.annotate h t) := by
  obtain ⟨grown, known⟩ := declared.laid.forest.concrete_grows k
  have has : s.graph.Has h := by
    obtain ⟨l, hl, rfl, _⟩ := declared.literal_at (f := g) (by simp) typed
    exact (declared.laid.isVariable l hl).1
  have next : s.annotate h t =
      ({ s with toSolver := (s.toSolver.concrete k).2 } : Session).constrainEqual h
        (s.graph.concrete k).1 t.span := by
    simp only [Session.annotate, named]
    rfl
  have log : (s.annotate h t).store.log.toList =
      s.store.log.toList ++ [⟨h, .equal, (s.graph.concrete k).1, t.span⟩] := by
    rw [next]
    exact Array.toList_push ..
  have graph : (s.annotate h t).graph = (s.graph.concrete k).2 := by
    rw [next]
    rfl
  have literals : (s.annotate h t).literals = s.literals := by
    rw [next]
    rfl
  refine ⟨?_, ?_, ?_, ?_, ?_⟩
  · rw [next]
    exact (declared.laid.grow grown).constrainEqual (grown.has has) (has_of_kind? known) t.span
  · rw [literals]
    exact declared.keys
  · rw [literals, ← declared.bodies]
    simp [same]
  · intro f' mem h' k' type kind'
    rw [log, graph]
    rcases List.mem_append.mp mem with old | mem
    · obtain ⟨c, equates, known'⟩ :=
        declared.equated f' (List.mem_append.mpr (.inl old)) h' k' type kind'
      exact ⟨c, equates.append, grown.kind_kept known'⟩
    · cases List.mem_singleton.mp mem
      rw [same, typed, Option.some.injEq] at type
      rw [kind, Option.some.injEq] at kind'
      subst type kind'
      exact ⟨_, ⟨⟨h, .equal, (s.graph.concrete k).1, t.span⟩, by simp, rfl, rfl, rfl⟩, known⟩
  · rintro a b ⟨c, mem, equal, left, right⟩
    rw [log] at mem
    rw [graph]
    rcases List.mem_append.mp mem with old | mem
    · obtain ⟨f', mem', type, k', kind', known'⟩ :=
        declared.equates a b ⟨c, old, equal, left, right⟩
      have here : f' ∈ fs := by
        rcases List.mem_append.mp mem' with mem' | mem'
        · exact mem'
        · rw [List.mem_singleton.mp mem', plain] at kind'
          cases kind'
      exact ⟨f', List.mem_append.mpr (.inl here), type, k', kind', grown.kind_kept known'⟩
    · rw [List.mem_singleton.mp mem] at left right
      exact ⟨f, by simp, by rw [same, typed, ← left], k, kind, right ▸ known⟩

theorem function (declared : Declared fs s) {f : FunctionDecl} {l : Literal} {value : LiteralValue}
    (body : f.body = .literal l) (read : literalValue l.text l.isDecimal = .ok value) :
    ∃ h t, f.typed s = .ok { f with body := .literal { l with type := some h } } t ∧
      t.options = s.options ∧
      Declared (fs ++ [{ f with body := .literal { l with type := some h } }]) t := by
  have fresh : Session.infer s.literals.length l s =
      .ok (s.graph.size : Int) (s.typing s.literals.length l value) := by
    rcases infer_cases s.literals.length l s with ⟨known, mem, key, _⟩ | ⟨e, failed, _⟩ |
      ⟨value', read', _, ran⟩
    · exact absurd key (declared.keys known mem).ne
    · rw [read] at failed
      cases failed
    · rw [read, Except.ok.injEq] at read'
      rw [ran, read']
  have typed : l.typed s =
      .ok { l with type := some (s.graph.size : Int) } (s.typing s.literals.length l value) := by
    unfold Literal.typed inferred
    rw [bind_of_ok (get_run s), bind_of_ok fresh]
    rfl
  refine ⟨(s.graph.size : Int), ?_⟩
  unfold FunctionDecl.typed
  rw [body]
  simp only [bind_of_ok typed]
  cases result : f.returnType with
  | none =>
    exact ⟨_, rfl, rfl, declared.typing read rfl rfl⟩
  | some t =>
    refine ⟨(s.typing s.literals.length l value).annotate (s.graph.size : Int) t, rfl, ?_, ?_⟩
    · unfold Session.annotate
      split <;> rfl
    cases named : Kind.ofSpelling? t.name with
    | some k =>
      have plain := declared.typing (f := ⟨f.name, none, .literal { l with
        type := some (s.graph.size : Int) }, f.exportAs, f.span⟩) read rfl rfl
      refine plain.annotate rfl ?_ rfl named ?_
      · rfl
      · simp [FunctionDecl.declaredKind?, named]
    | none =>
      have same : (s.typing s.literals.length l value).annotate (s.graph.size : Int) t =
          s.typing s.literals.length l value := by
        simp [Session.annotate, named]
      rw [same]
      exact declared.typing read (by simp [FunctionDecl.declaredKind?, named]) rfl

theorem declarations {ds : List Decl} (declared : Declared fs s)
    (readable : ∀ f, .function f ∈ ds → f.Readable) :
    ∃ ds' t, ds.mapM Decl.typed s = .ok ds' t ∧ t.options = s.options ∧
      ds'.map Decl.untyped = ds ∧ Declared (fs ++ ds'.filterMap Decl.function?) t := by
  induction ds generalizing fs s with
  | nil => exact ⟨[], s, rfl, rfl, rfl, by simpa using declared⟩
  | cons d ds ih =>
    have rest : ∀ f, .function f ∈ ds → f.Readable := fun f mem => readable f (by simp [mem])
    rw [List.mapM_cons]
    cases d with
    | exportOf e =>
      obtain ⟨ds', t, ran, options, same, next⟩ := ih declared rest
      refine ⟨.exportOf e :: ds', t, ?_, options, by simp [Decl.untyped, same], next⟩
      have first : (Decl.exportOf e).typed s = .ok (.exportOf e) s := rfl
      rw [bind_of_ok first, bind_of_ok ran]
      rfl
    | function f =>
      obtain ⟨l, value, body, new, read⟩ := readable f (by simp)
      obtain ⟨h, u, typed, options', declared'⟩ := declared.function body read
      obtain ⟨ds', t, ran, options, same, next⟩ := ih declared' rest
      refine ⟨.function { f with body := .literal { l with type := some h } } :: ds', t, ?_,
        options.trans options', ?_, ?_⟩
      · have first : (Decl.function f).typed s =
            .ok (.function { f with body := .literal { l with type := some h } }) u := by
          rw [Decl.typed, map_eq_pure_bind, bind_of_ok typed]
          rfl
        rw [bind_of_ok first, bind_of_ok ran]
        rfl
      · rw [List.map_cons, same, Decl.untyped, FunctionDecl.untyped_of_literal body new]
      · simpa [Decl.function?] using next

section Classes

variable {f : FunctionDecl} {l : TypedLiteral} {h : Handle} {k : Kind}

theorem exists_function (declared : Declared fs s) (hl : l ∈ s.literals) :
    ∃ f ∈ fs, f.body = l.body := by
  have mem : l.body ∈ s.literals.map TypedLiteral.body := List.mem_map_of_mem hl
  rw [← declared.bodies] at mem
  exact List.mem_map.mp mem

theorem kinds_eq (body : f.body = l.body) : f.kinds s.options.exactUnsigned = s.kinds l := by
  unfold FunctionDecl.kinds
  rw [body]
  rfl

theorem eq_of_type (declared : Declared fs s) {f' : FunctionDecl} (hf : f ∈ fs) (hf' : f' ∈ fs)
    (type : f.body.type = some h) (type' : f'.body.type = some h) : f = f' := by
  have distinct : (fs.map fun f => f.body.type).Nodup := by
    have same : fs.map (fun f => f.body.type) = s.literals.map fun l => some l.handle := by
      have types := congrArg (List.map Body.type) declared.bodies
      rw [List.map_map, List.map_map] at types
      exact types
    rw [same]
    have handles := declared.laid.distinct.map (Option.some_injective _)
    rwa [List.map_map] at handles
  exact List.inj_on_of_nodup_map distinct hf hf' (type.trans type'.symm)

/-- The kind that a handle is linked with, or else the handle itself. -/
def mark (fs : List FunctionDecl) (s : Session) (h : Handle) : Kind ⊕ Handle :=
  match s.graph.kind? h, (fs.find? (·.body.type = some h)).bind (·.declaredKind?) with
  | some k, _ => .inl k
  | none, some k => .inl k
  | none, none => .inr h

theorem mark_of_kind (kind : s.graph.kind? h = some k) : mark fs s h = .inl k := by
  simp [mark, kind]

theorem mark_body (declared : Declared fs s) (hf : f ∈ fs) (type : f.body.type = some h) :
    mark fs s h = f.declaredKind?.elim (.inr h) .inl := by
  have var : s.graph.kind? h = none := by
    obtain ⟨l, hl, rfl, _⟩ := declared.literal_at hf type
    exact (declared.laid.isVariable l hl).2
  have found : fs.find? (·.body.type = some h) = some f := by
    cases result : fs.find? (·.body.type = some h) with
    | none =>
      have missing := List.find?_eq_none.mp result f hf
      simp [type] at missing
    | some f' =>
      have type' := List.find?_some result
      rw [declared.eq_of_type hf (List.mem_of_find?_eq_some result) type (by simpa using type')]
  cases kind : f.declaredKind? <;> simp [mark, var, found, kind]

theorem eq_of_mark {a b : Handle} (open_mark : mark fs s a = .inr b) : a = b := by
  unfold mark at open_mark
  split at open_mark
  next => cases open_mark
  next => cases open_mark
  next => exact Sum.inr.inj open_mark

theorem mark_eq_of_linked (declared : Declared fs s) {a b : Handle} (linked : s.Linked a b) :
    mark fs s a = mark fs s b := by
  -- an equality has a body on its left and the node of the declared kind on its right
  have one : Equates s.store.log.toList ≤ fun a b => mark fs s a = mark fs s b := by
    intro a b equates
    obtain ⟨f, hf, type, k, kind, known⟩ := declared.equates a b equates
    rw [declared.mark_body hf type, mark_of_kind known, kind]
    rfl
  exact (eq_equivalence.comap (mark fs s)).eqvGen_iff.mp (linked.mono one a b)

theorem mark_of_holds (declared : Declared fs s) (holds : s.Holds h k) : mark fs s h = .inl k := by
  obtain ⟨c, kind, linked⟩ := holds
  rw [declared.mark_eq_of_linked linked, mark_of_kind kind]

/-- A function's body is linked with the kind that its return type names, and with no other. -/
theorem holds_iff (declared : Declared fs s) (hf : f ∈ fs) (type : f.body.type = some h) :
    s.Holds h k ↔ f.declaredKind? = some k := by
  constructor
  · intro holds
    have marked := declared.mark_of_holds holds
    rw [declared.mark_body hf type] at marked
    cases kind : f.declaredKind? with
    | none => simp [kind] at marked
    | some k' =>
      rw [kind] at marked
      rw [Sum.inl.inj marked]
  · intro kind
    obtain ⟨c, equates, known⟩ := declared.equated f hf h k type kind
    exact ⟨c, known, Relation.EqvGen.rel _ _ equates⟩

/-- The body of a function without a return type is linked with nothing else. -/
theorem eq_of_linked (declared : Declared fs s) (hf : f ∈ fs) (type : f.body.type = some h)
    (plain : f.declaredKind? = none) {a : Handle} (linked : s.Linked a h) : a = h := by
  have marked := declared.mark_eq_of_linked linked
  rw [declared.mark_body hf type, plain] at marked
  exact eq_of_mark marked

theorem shared_iff (declared : Declared fs s) (hf : f ∈ fs) (type : f.body.type = some h)
    (plain : f.declaredKind? = none) :
    s.Shared h k ↔
      (f.kinds s.options.exactUnsigned ≠ [] → k ∈ f.kinds s.options.exactUnsigned) := by
  obtain ⟨l, hl, rfl, body⟩ := declared.literal_at hf type
  rw [kinds_eq body]
  constructor
  · intro shared
    exact shared l hl (.refl s _)
  · intro fits l' hl' linked
    have same := declared.eq_of_linked hf type plain linked
    rwa [declared.laid.eq_of_handle hl' hl same]

theorem nodup_kinds (exact : Bool) (f : FunctionDecl) : (f.kinds exact).Nodup := by
  have all : Kind.all.Nodup := by decide
  unfold FunctionDecl.kinds Literal.kinds
  split
  next =>
    split
    next => exact all.filter _
    next => exact List.nodup_nil
  next => exact List.nodup_nil

/-- A body is narrowed if its function has no return type and only one kind can hold it. -/
theorem sole_iff (declared : Declared fs s) (hf : f ∈ fs) (type : f.body.type = some h) :
    s.Sole h k ↔ f.declaredKind? = none ∧ f.kinds s.options.exactUnsigned = [k] := by
  constructor
  · intro sole
    have plain : f.declaredKind? = none := by
      cases kind : f.declaredKind? with
      | none => rfl
      | some k' => exact absurd ((declared.holds_iff hf type).mpr kind) (sole.1 k')
    have some_kind : f.kinds s.options.exactUnsigned ≠ [] := by
      obtain ⟨l, hl, rfl, body⟩ := declared.literal_at hf type
      obtain ⟨l', hl', linked, some_kind⟩ := sole.exists_literal
      have same := declared.eq_of_linked hf type plain linked
      rwa [kinds_eq body, ← declared.laid.eq_of_handle hl' hl same]
    have only : ∀ k', k' ∈ f.kinds s.options.exactUnsigned ↔ k' ∈ [k] := by
      intro k'
      rw [List.mem_singleton, ← sole.2 k', declared.shared_iff hf type plain]
      exact ⟨fun mem _ => mem, fun fits => fits some_kind⟩
    have perm := (List.perm_ext_iff_of_nodup (nodup_kinds _ f) (List.nodup_singleton k)).mpr only
    exact ⟨plain, List.perm_singleton.mp perm⟩
  · rintro ⟨plain, kinds⟩
    refine ⟨fun k' holds => ?_, fun k' => ?_⟩
    · rw [declared.holds_iff hf type, plain] at holds
      cases holds
    · rw [declared.shared_iff hf type plain, kinds]
      simp

theorem bodyKind?_iff (declared : Declared fs s) (hf : f ∈ fs) (type : f.body.type = some h) :
    s.Holds h k ∨ s.Sole h k ↔ f.bodyKind? s.options.exactUnsigned = some k := by
  rw [declared.holds_iff hf type, declared.sole_iff hf type]
  unfold FunctionDecl.bodyKind?
  cases f.declaredKind? with
  | some k' => simp
  | none =>
    simp only [reduceCtorEq, true_and, false_or]
    split <;> simp_all

theorem classKind?_eq (declared : Declared fs s) {t : Solver} (decided : Decided s t) (hf : f ∈ fs)
    (type : f.body.type = some h) :
    t.graph.classKind? h = f.bodyKind? s.options.exactUnsigned := by
  ext k
  rw [decided.classKind?_iff declared.laid, declared.bodyKind?_iff hf type]

theorem no_conflict (declared : Declared fs s) : ¬s.Conflict := by
  rintro ⟨h, k, k', differ, holds, holds'⟩
  have marked := declared.mark_of_holds holds
  rw [declared.mark_of_holds holds'] at marked
  exact differ (Sum.inl.inj marked).symm

/-- A mismatch of a declared session is that of a function with its return type. -/
theorem unfit_of_verdict (declared : Declared fs s) (placed : ∀ f ∈ fs, f.body.span ≠ none)
    {e : TypeError} (verdict : s.Verdict e) :
    ∃ f ∈ fs, ∃ k, f.Unfit s.options.exactUnsigned k ∧ e = ⟨.unfit k, f.body.span⟩ := by
  cases verdict with
  | clash _ conflict => exact absurd conflict declared.no_conflict
  | @unfit l k o _ hl holds outside place =>
    obtain ⟨f, hf, body⟩ := declared.exists_function hl
    have type : f.body.type = some l.handle := body ▸ rfl
    obtain ⟨span, known⟩ := Option.ne_none_iff_exists'.mp (placed f hf)
    have at_literal : l.literal.span = some span := by
      rw [← known, body]
      rfl
    refine ⟨f, hf, k, ⟨(declared.holds_iff hf type).mp holds, ?_⟩, ?_⟩
    · rwa [kinds_eq body]
    · rw [known, place span at_literal]
  | @forced l k _ hl none sole =>
    obtain ⟨f, hf, body⟩ := declared.exists_function hl
    obtain ⟨_, kinds⟩ := (declared.sole_iff hf (body ▸ rfl)).mp sole
    rw [kinds_eq body, none] at kinds
    cases kinds
  | disjoint _ apart =>
    obtain ⟨h, unresolved, ⟨l, hl, linked, some_kind⟩, empty⟩ := apart
    obtain ⟨f, hf, body⟩ := declared.exists_function hl
    have type : f.body.type = some l.handle := body ▸ rfl
    have plain : f.declaredKind? = none := by
      cases kind : f.declaredKind? with
      | none => rfl
      | some k =>
        exact absurd (((declared.holds_iff hf type).mpr kind).of_linked linked.symm) (unresolved k)
    obtain ⟨k, hk⟩ := List.exists_mem_of_ne_nil _ some_kind
    -- the class has no other literal, so any kind that can hold this one is shared
    rw [← kinds_eq body] at hk
    exact absurd (((declared.shared_iff hf type plain).mpr fun _ => hk).of_linked linked.symm)
      (empty k)

theorem misfit_of_unfit (declared : Declared fs s) (hf : f ∈ fs) (type : f.body.type = some h)
    (unfit : f.Unfit s.options.exactUnsigned k) : s.Misfit := by
  obtain ⟨l, hl, rfl, body⟩ := declared.literal_at hf type
  refine ⟨l, hl, k, (declared.holds_iff hf type).mpr unfit.1, ?_⟩
  rw [← kinds_eq body]
  exact unfit.2

end Classes

end Declared

end Session

end ConstFun
