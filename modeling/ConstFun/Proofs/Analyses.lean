import ConstFun.Proofs.Logging
import ConstFun.Proofs.Resolution

namespace ConstFun

open TypeGraph

namespace Parser

/-- A property of everything that a parser gives. -/
def Gives {α : Type} (P : α → Prop) (p : Parser α) : Prop :=
  ∀ s a t, p s = .ok (a, t) → P a

namespace Gives

variable {α β : Type} {P : α → Prop} {Q : β → Prop}

theorem bind {p : Parser α} {f : α → Parser β} (first : Gives P p)
    (second : ∀ a, P a → Gives Q (f a)) : Gives Q (p >>= f) := by
  intro s b u done
  obtain ⟨a, t, one, two⟩ := bind_eq_ok done
  exact second a (first s a t one) t b u two

theorem after {p : Parser α} {f : α → Parser β} (second : ∀ a, Gives Q (f a)) :
    Gives Q (p >>= f) :=
  bind (P := fun _ => True) (fun _ _ _ _ => trivial) fun a _ => second a

theorem pure {b : β} (holds : Q b) : Gives Q (Pure.pure b) := by
  intro s b' t done
  obtain ⟨rfl, -⟩ := Prod.mk.inj (Except.ok.inj done)
  exact holds

theorem map {p : Parser α} {g : α → β} (first : Gives (fun a => Q (g a)) p) :
    Gives Q (g <$> p) := by
  rw [map_eq_pure_bind]
  exact first.bind fun a holds => .pure holds

theorem reject (problem : ParseProblem) (t : Token) : Gives Q (Parser.reject problem t) := by
  intro s b u done
  cases done

end Gives

end Parser

/-- A function's body is a literal with a place and without a type, and its return type names a
kind. -/
def FunctionDecl.Written (f : FunctionDecl) : Prop :=
  (∃ l, f.body = .literal l ∧ l.type = none ∧ l.span ≠ none) ∧
    ∀ t, f.returnType = some t → Kind.ofSpelling? t.name ≠ none

def Decl.Written (d : Decl) : Prop := ∀ f, d = .function f → f.Written

namespace Parser

theorem literal_gives : Gives (fun l => l.type = none ∧ l.span ≠ none) literal := by
  refine .after fun start => ?_
  split
  next => exact .after fun t => .after fun span => .pure ⟨rfl, by simp⟩
  next => exact .reject _ _

theorem typeName_gives : Gives (fun t => Kind.ofSpelling? t.name ≠ none) typeName := by
  refine .after fun start => .after fun t => .after fun span => ?_
  split
  next known => exact .pure (Option.isSome_iff_ne_none.mp known)
  next => exact .reject _ _

theorem annotation_gives :
    Gives (fun r => ∀ t, r = some t → Kind.ofSpelling? t.name ≠ none) annotation := by
  refine .after fun marked => ?_
  split
  next =>
    refine .map fun s a t done u eq => ?_
    cases eq
    exact typeName_gives s a t done
  next => exact .pure (by simp)

theorem function_gives (exportAs : Option String) :
    Gives FunctionDecl.Written (function exportAs) := by
  refine .after fun start => .after fun word => .after fun name => .after fun _ => ?_
  refine annotation_gives.bind fun returnType named => literal_gives.bind fun body written => ?_
  exact .after fun span => .pure ⟨⟨body, rfl, written⟩, named⟩

theorem declared_gives {g : FunctionDecl → FunctionDecl}
    (same : ∀ f, (g f).body = f.body ∧ (g f).returnType = f.returnType)
    (exportAs : Option String) :
    Gives Decl.Written ((fun f => .function (g f)) <$> function exportAs) := by
  refine .map fun s a t done f eq => ?_
  cases eq
  obtain ⟨⟨l, body, plain⟩, named⟩ := function_gives exportAs s a t done
  exact ⟨⟨l, (same a).1.trans body, plain⟩, (same a).2 ▸ named⟩

theorem aliasedFunction_gives : Gives Decl.Written aliasedFunction := by
  refine .after fun word => .after fun publicName => .after fun following => ?_
  split
  next => exact declared_gives (fun f => ⟨rfl, rfl⟩) _
  next => exact .reject _ _

theorem exportItem_gives : Gives Decl.Written exportItem := by
  refine .after fun start => .after fun word => .after fun following => ?_
  split
  next =>
    exact declared_gives (g := fun f => { f with exportAs := some f.name })
      (fun f => ⟨rfl, rfl⟩) _
  next =>
    split
    next => exact aliasedFunction_gives
    next =>
      split
      next =>
        refine .after fun name => .after fun publicName => .after fun span => .pure ?_
        simp [Decl.Written]
      next => exact .reject _ _

theorem item_gives : Gives Decl.Written item := by
  refine .after fun t => ?_
  split
  next => exact declared_gives (fun f => ⟨rfl, rfl⟩) _
  next =>
    split
    next => exact exportItem_gives
    next => exact .reject _ _

theorem items_written {s : TokenStream} {f : FunctionDecl}
    (mem : .function f ∈ (items s).1) : f.Written := by
  fun_induction items s with
  | case1 | case2 | case3 => cases mem
  | case4 s t rest first _ d next read ds outcome tail ih =>
    rcases List.mem_cons.mp mem with eq | mem
    · exact item_gives s d next read f eq.symm
    · exact ih (by simpa [tail] using mem)

/-- A stream that is parsed to its end starts with a token, and ends with one. -/
theorem items_ends {s rest : TokenStream} {ds : List Decl} (parsed : items s = (ds, .ok rest)) :
    s.rest ≠ [] ∧ rest.rest ≠ [] := by
  fun_induction items s generalizing ds with
  | case1 | case3 => cases parsed
  | case2 s t tokens first _ =>
    cases parsed
    simp [first]
  | case4 s t tokens first _ d next read ds' outcome tail ih =>
    cases parsed
    exact ⟨by simp [first], (ih tail).2⟩

end Parser

/-- A source lexes, and parses as these declarations; the text of every literal is a number. -/
structure Source.Parses (source : Source) (ds : List Decl) : Prop where
  parsed : ∃ tokens rest, tokenize source.text = .ok tokens ∧
    Parser.items { rest := tokens } = (ds, .ok rest)
  values : ∀ f l, .function f ∈ ds → f.body = .literal l →
    ∃ value, literalValue l.text l.isDecimal = .ok value

namespace Source.Parses

variable {source : Source} {ds : List Decl}

theorem written (parses : source.Parses ds) {f : FunctionDecl} (mem : .function f ∈ ds) :
    f.Written := by
  obtain ⟨tokens, rest, _, parsed⟩ := parses.parsed
  exact Parser.items_written (s := { rest := tokens }) (by rwa [parsed])

theorem readable (parses : source.Parses ds) (f : FunctionDecl) (mem : .function f ∈ ds) :
    f.Readable := by
  obtain ⟨⟨l, body, new, _⟩, _⟩ := parses.written mem
  obtain ⟨value, read⟩ := parses.values f l mem body
  exact ⟨l, value, body, new, read⟩

end Source.Parses

theorem Program.read_run {tokens rest : TokenStream} {ds ds' : List Decl} {s t : Session}
    (parsed : Parser.items tokens = (ds, .ok rest)) (ran : ds.mapM Decl.typed s = .ok ds' t)
    (name : String) (filename : Option String) :
    ∃ span, Program.read name filename tokens s =
      .ok (⟨name, ds', filename, some span⟩, rest) t := by
  obtain ⟨some_token, end_token⟩ := Parser.items_ends parsed
  obtain ⟨start, _, starts⟩ := List.exists_cons_of_ne_nil some_token
  obtain ⟨last, _, ends⟩ := List.exists_cons_of_ne_nil end_token
  have placed : ∃ span, Parser.spanFrom start rest = .ok (span, rest) := by
    unfold Parser.spanFrom
    cases rest.previous <;> simp [ends]
  obtain ⟨span, placed⟩ := placed
  refine ⟨span, ?_⟩
  unfold Program.read
  rw [parsed]
  dsimp only
  rw [bind_of_ok (adaptExcept_of_ok ran)]
  simp only [starts, List.head?_cons, placed]
  rfl

theorem Session.Declared.values_of_typed {fs : List FunctionDecl} {s t : Session}
    (declared : s.Declared fs) {ds ds' : List Decl} (written : ∀ f, .function f ∈ ds → f.Written)
    (ran : ds.mapM Decl.typed s = .ok ds' t) :
    ∀ f l, .function f ∈ ds → f.body = .literal l →
      ∃ value, literalValue l.text l.isDecimal = .ok value := by
  induction ds generalizing fs s t ds' with
  | nil => simp
  | cons d ds ih =>
    have rest : ∀ f, .function f ∈ ds → f.Written := fun f mem => written f (by simp [mem])
    rw [List.mapM_cons] at ran
    cases d with
    | exportOf e =>
      obtain ⟨_, u, first, chain⟩ := ok_of_bind ran
      obtain ⟨_, _, later, _⟩ := ok_of_bind chain
      cases first
      intro f l mem
      exact ih declared rest later f l (by simpa using mem)
    | function f =>
      obtain ⟨⟨l, body, _⟩, _⟩ := written f (by simp)
      obtain ⟨d', u, first, chain⟩ := ok_of_bind ran
      obtain ⟨_, _, later, _⟩ := ok_of_bind chain
      rw [Decl.typed, map_eq_pure_bind] at first
      cases read : literalValue l.text l.isDecimal with
      | error e =>
        -- typing a text that is no number fails
        have failed : Session.infer s.literals.length l s =
            .error e { s with toSolver := s.toSolver.newVariable.2 } := by
          rcases infer_cases s.literals.length l s with ⟨known, mem, key, _⟩ | ⟨e', read', ran⟩ |
            ⟨value, read', _⟩
          · exact absurd key (declared.keys known mem).ne
          · rw [read, Except.error.injEq] at read'
            rw [ran, read']
          · rw [read] at read'
            cases read'
        have typed : l.typed s = .error e { s with toSolver := s.toSolver.newVariable.2 } := by
          unfold Literal.typed inferred
          rw [bind_of_ok (get_run s), bind_of_error failed]
        have whole : f.typed s = .error e { s with toSolver := s.toSolver.newVariable.2 } := by
          unfold FunctionDecl.typed
          rw [body]
          exact bind_of_error typed
        rw [bind_of_error whole] at first
        cases first
      | ok value =>
        obtain ⟨h, v, typed, _, next⟩ := declared.function body read
        rw [bind_of_ok typed] at first
        cases first
        intro f' l' mem body'
        rcases List.mem_cons.mp mem with eq | mem
        · cases eq
          rw [body, Body.literal.injEq] at body'
          exact ⟨value, body' ▸ read⟩
        · exact ih next rest later f' l' mem body'

theorem Program.parsed_of_read {name : String} {filename : Option String} {tokens : TokenStream}
    {s t : Session} {result : Program × TokenStream}
    (read : Program.read name filename tokens s = .ok result t) :
    ∃ ds ds' rest u, Parser.items tokens = (ds, .ok rest) ∧
      ds.mapM Decl.typed s = .ok ds' u := by
  unfold Program.read at read
  rcases parsed : Parser.items tokens with ⟨ds, outcome⟩
  rw [parsed] at read
  obtain ⟨ds', u, typed, ended⟩ := ok_of_bind read
  cases ran : ds.mapM Decl.typed s with
  | error e v =>
    rw [adaptExcept_of_error ran] at typed
    cases typed
  | ok ds'' v =>
    cases outcome with
    | error e => cases ended
    | ok rest => exact ⟨ds, ds'', rest, v, rfl, ran⟩

namespace Names

/-- All that is reported are problems with names, as errors. -/
def Naming (n : Names) : Prop :=
  ∀ d ∈ n.diagnostics, d.severity = .error ∧ ∃ problem, d.problem = .naming problem

theorem Naming.report {n : Names} (naming : n.Naming) (problem : NameProblem)
    (filename : Option String) (span : Option Span) : (n.report problem filename span).Naming := by
  intro d mem
  rcases List.mem_append.mp mem with old | mem
  · exact naming d old
  · rw [List.mem_singleton.mp mem]
    exact ⟨rfl, problem, rfl⟩

theorem ofProgram_naming (p : Program) : (ofProgram p).Naming := by
  have functions : (p.functions.foldl (addFunction p.filename) {}).Naming := by
    refine List.foldlRecOn _ _ (by simp [Naming]) fun n naming f _ => ?_
    unfold addFunction
    split
    next => exact naming.report _ _ _
    next => exact naming
  refine List.foldlRecOn _ _ functions fun n naming e _ => ?_
  unfold addExport
  split
  next => exact naming.report _ _ _
  next =>
    split
    next => exact naming.report _ _ _
    next => exact naming

end Names

/-- The warning about a literal that has no kind. -/
def Literal.warning? (kind : Option Kind) (filename : Option String) (l : Literal) :
    Option Diagnostic :=
  match kind with
  | none => some (.atSpan .warning (.ambiguous l.text) filename l.span)
  | some _ => none

theorem Literal.eq_of_warning? {kind : Option Kind} {filename : Option String} {l : Literal}
    {d : Diagnostic} (warned : l.warning? kind filename = some d) :
    d = .atSpan .warning (.ambiguous l.text) filename l.span := by
  cases kind with
  | none => exact (Option.some.inj warned).symm
  | some k => cases warned

/-- The warning about a function whose body has no kind. -/
def FunctionDecl.warning? (exact : Bool) (filename : Option String) (f : FunctionDecl) :
    Option Diagnostic :=
  match f.body with
  | .literal l => l.warning? (f.bodyKind? exact) filename
  | .other _ => none

/-- The warning about a function whose body gets no kind. -/
def FunctionDecl.openWarning? (options : TypingOptions) (filename : Option String)
    (f : FunctionDecl) : Option Diagnostic :=
  match f.body with
  | .literal l => l.warning? (f.resolvedKind? options) filename
  | .other _ => none

namespace Analysis

theorem log_run (e : Event) (s : Session) : log e s = .ok () (s.record e) := rfl

theorem attempt_of_ok {ε ε' σ α : Type} {m : EStateM ε σ α} {s t : σ} {a : α}
    (ran : m s = .ok a t) : (attempt m : EStateM ε' σ (Except ε α)) s = .ok (.ok a) t := by
  simp [attempt, ran]

theorem attempt_of_error {ε ε' σ α : Type} {m : EStateM ε σ α} {s t : σ} {e : ε}
    (ran : m s = .error e t) : (attempt m : EStateM ε' σ (Except ε α)) s = .ok (.error e) t := by
  simp [attempt, ran]

theorem readProgram_run {source : Source} {ds : List Decl} (parses : source.Parses ds)
    {fs : List FunctionDecl} {s : Session} (declared : s.Declared fs) :
    ∃ p t, readProgram source s = .ok (.ok p) t ∧ t.options = s.options ∧
      p.name = source.moduleName ∧ p.filename = some source.filename ∧
      p.decls.map Decl.untyped = ds ∧ t.Declared (fs ++ p.functions) := by
  obtain ⟨tokens, rest, lexed, parsed⟩ := parses.parsed
  unfold readProgram
  rw [bind_of_ok (log_run _ _), lexed]
  dsimp only
  rw [bind_of_ok (log_run _ _)]
  generalize recorded : (s.record _).record _ = u
  have opened : u.Declared fs := recorded ▸ (declared.record _).record _
  have options : u.options = s.options := recorded ▸ rfl
  obtain ⟨ds', t, ran, options', same, typed⟩ := opened.declarations parses.readable
  obtain ⟨span, read⟩ := Program.read_run parsed ran source.moduleName (some source.filename)
  rw [bind_of_ok (attempt_of_ok read)]
  exact ⟨_, _, rfl, options'.trans options, rfl, rfl, same, typed.record _⟩

/-- A review warns about the literals whose classes have no kind. -/
theorem review_run (filename : Option String) (ls : List TypedLiteral) {s : Session}
    (wf : s.graph.WellFormed) (has : ∀ l ∈ ls, s.graph.Has l.handle) (a : Analysis) :
    ∃ a' journal, ls.foldlM (reviewLiteral filename) a s = .ok a' { s with journal } ∧
      a'.program = a.program ∧ a'.functions = a.functions ∧ a'.exports = a.exports ∧
      a'.diagnostics = a.diagnostics ++
        ls.filterMap fun l => l.literal.warning? (s.graph.classKind? l.handle) filename := by
  induction ls generalizing a s with
  | nil => exact ⟨a, s.journal, rfl, rfl, rfl, rfl, (List.append_nil _).symm⟩
  | cons l ls ih =>
    have known : s.graph.classKind l.handle = .ok (s.graph.classKind? l.handle) :=
      kindOf_eq (wf.root_has (has l (by simp)))
    have rest : ∀ l ∈ ls, s.graph.Has l.handle := fun l mem => has l (by simp [mem])
    rw [List.foldlM_cons]
    cases kind : s.graph.classKind? l.handle with
    | none =>
      have first : reviewLiteral filename a l s = .ok
          (a.report (.atSpan .warning (.ambiguous l.literal.text) filename l.literal.span)) s := by
        unfold reviewLiteral
        rw [bind_of_ok (get_run s), known, kind]
        rfl
      obtain ⟨a', journal, ran, program, functions, exports, warnings⟩ := ih wf rest (a.report _)
      refine ⟨a', journal, by rw [bind_of_ok first, ran], program, functions, exports, ?_⟩
      simp [warnings, report, kind, Literal.warning?]
    | some k =>
      have first : ∃ e, reviewLiteral filename a l s = .ok a (s.record e) := by
        unfold reviewLiteral
        rw [bind_of_ok (get_run s), known, kind]
        exact ⟨_, rfl⟩
      obtain ⟨e, first⟩ := first
      obtain ⟨a', journal, ran, program, functions, exports, warnings⟩ :=
        ih (s := s.record e) wf rest a
      refine ⟨a', journal, by rw [bind_of_ok first, ran]; rfl, program, functions, exports, ?_⟩
      rw [warnings, List.filterMap_cons, kind]
      rfl

/-- The warnings about the literals of a solved session are those about its functions. -/
theorem warnings_eq {fs : List FunctionDecl} {s : Session} (resolved : s.Resolved fs)
    (filename : Option String) :
    (s.literals.filterMap fun l => l.literal.warning? (s.graph.classKind? l.handle) filename) =
      fs.filterMap (·.openWarning? s.options filename) := by
  let warning : Body → Option Diagnostic := fun
    | .literal l => l.warning? (l.type.bind s.graph.classKind?) filename
    | .other _ => none
  calc
    s.literals.filterMap (fun l => l.literal.warning? (s.graph.classKind? l.handle) filename)
      = (s.literals.map TypedLiteral.body).filterMap warning := by
        rw [List.filterMap_map]
        rfl
    _ = fs.filterMap (warning ∘ (·.body)) := by rw [← resolved.bodies, List.filterMap_map]
    _ = fs.filterMap (·.openWarning? s.options filename) := by
        refine List.filterMap_congr fun f hf => ?_
        obtain ⟨l, hl, body⟩ := resolved.exists_literal hf
        have kind := resolved.kinds f hf _ (body ▸ l.body_type)
        unfold FunctionDecl.openWarning?
        rw [← kind, Function.comp, body]
        rfl

/-- Inference solves the constraints and then reviews the literals, or reports the mismatch that
solving ends with; all else that it changes is what is logged. -/
theorem infer_cases {a : Analysis} {p : Program} (program : a.program = some p) (filename : String)
    (s : Session) :
    ∃ journal, Ends Session.solve { s with journal }
      (fun _ t => ∃ journal,
        Ends (t.literals.foldlM (reviewLiteral p.filename) a) { t with journal }
          (fun a' u => ∃ journal, infer filename a s = .ok a' { u with journal })
          (fun e u => infer filename a s = .error e u))
      (fun e t => (∃ m, e = .mismatch m ∧ infer filename a s =
          .ok (a.report (.atSpan .error (.typing m.problem) (some filename) m.origin)) t) ∨
        ∃ f e', e = .fault f ∧ infer filename a s = .error e' t) := by
  unfold infer
  rw [program]
  dsimp only
  rw [bind_of_ok (log_run _ _), bind_of_ok (log_run _ _)]
  generalize recorded : (s.record _).record _ = u
  obtain ⟨journal, rfl⟩ : ∃ journal, u = { s with journal } := ⟨u.journal, recorded ▸ rfl⟩
  refine ⟨journal, ?_⟩
  unfold Ends
  cases solved : Session.solve { s with journal } with
  | error e t =>
    rw [bind_of_ok (attempt_of_error solved)]
    cases e with
    | mismatch m => exact .inl ⟨m, rfl, rfl⟩
    | fault f => exact .inr ⟨f, _, rfl, rfl⟩
  | ok count t =>
    rw [bind_of_ok (attempt_of_ok solved)]
    dsimp only
    rw [bind_of_ok (get_run _), bind_of_ok (log_run _ _), bind_of_ok (get_run _)]
    generalize logged : t.record _ = v
    obtain ⟨journal, rfl⟩ : ∃ journal, v = { t with journal } := ⟨v.journal, logged ▸ rfl⟩
    refine ⟨journal, ?_⟩
    split
    next a' u reviewed =>
      rw [bind_of_ok reviewed, bind_of_ok (log_run _ _)]
      exact ⟨_, rfl⟩
    next e u failed => rw [bind_of_error failed]

/-- Solving the constraints of declared functions gives each body its kind and warns about those
without. With narrowing, it may find one that does not fit its return type. -/
theorem infer_run {filename : String} {a : Analysis} {p : Program} (program : a.program = some p)
    (file : p.filename = some filename) {s : Session} (declared : s.Declared p.functions)
    (placed : ∀ f ∈ p.functions, f.body.span ≠ none) :
    ∃ a' t, infer filename a s = .ok a' t ∧ a'.program = some p ∧ a'.functions = a.functions ∧
      a'.exports = a.exports ∧
      ((s.options.narrowing = true ∧ ∃ f ∈ p.functions, ∃ k, f.Unfit s.options.exactUnsigned k ∧
          a'.diagnostics = a.diagnostics ++
            [.atSpan .error (.typing (.unfit k)) (some filename) f.body.span]) ∨
        (s.options.narrowing = true →
          ∀ f ∈ p.functions, ∀ k, ¬f.Unfit s.options.exactUnsigned k) ∧
        a'.diagnostics = a.diagnostics ++
          p.functions.filterMap (·.openWarning? s.options (some filename)) ∧
        t.options = s.options ∧ t.Resolved p.functions) := by
  obtain ⟨journal, inferred⟩ := infer_cases program filename s
  have ends := (declared.log journal).solve_ends placed
  unfold Ends at ends inferred
  split at ends
  next count t solved =>
    obtain ⟨same, resolved, fits⟩ := ends
    rw [solved] at inferred
    obtain ⟨journal, reviews⟩ := inferred
    have resolved := resolved.log journal
    obtain ⟨a', journal, reviewed, program', functions, exports, warnings⟩ :=
      review_run p.filename t.literals resolved.forest resolved.nodes a
    rw [reviewed] at reviews
    obtain ⟨journal, ran⟩ := reviews
    refine ⟨a', _, ran, program'.trans program, functions, exports, .inr ⟨fits, ?_, same, ?_⟩⟩
    · rw [warnings, warnings_eq resolved, file, ← same]
    · exact resolved.log journal
  next e t failed =>
    obtain ⟨on, f, hf, k, unfit, rfl⟩ := ends
    rw [failed] at inferred
    rcases inferred with ⟨m, same, ran⟩ | ⟨_, _, same, _⟩
    · cases same
      exact ⟨_, t, ran, program, rfl, rfl, .inl ⟨on, f, hf, k, unfit, rfl⟩⟩
    · cases same

/-- With narrowing, solving finds a function that does not fit its return type, or it gives each
body its kind and warns about those without. -/
theorem infer_ends {filename : String} {a : Analysis} {p : Program} (program : a.program = some p)
    (file : p.filename = some filename) {s : Session} (declared : s.Declared p.functions)
    (placed : ∀ f ∈ p.functions, f.body.span ≠ none) (on : s.options.narrowing = true) :
    ∃ a' t, infer filename a s = .ok a' t ∧ a'.program = some p ∧
      ((∃ f ∈ p.functions, ∃ k, f.Unfit s.options.exactUnsigned k ∧
          a'.diagnostics = a.diagnostics ++
            [.atSpan .error (.typing (.unfit k)) (some filename) f.body.span]) ∨
        (∀ f ∈ p.functions, ∀ k, ¬f.Unfit s.options.exactUnsigned k) ∧
        a'.diagnostics = a.diagnostics ++
          p.functions.filterMap (·.warning? s.options.exactUnsigned (some filename)) ∧
        ∀ f ∈ p.functions, ∃ h t', f.body.type = some h ∧
          Session.reifyKind h t = .ok (f.bodyKind? s.options.exactUnsigned) t') := by
  obtain ⟨a', t, ran, program', _, _, outcome⟩ := infer_run program file declared placed
  refine ⟨a', t, ran, program', ?_⟩
  rcases outcome with ⟨_, unfit⟩ | ⟨fits, reported, same, resolved⟩
  · exact .inl unfit
  · have narrowed : ∀ f : FunctionDecl,
        f.resolvedKind? s.options = f.bodyKind? s.options.exactUnsigned := fun f => by
      rw [FunctionDecl.resolvedKind?, if_pos on]
    refine .inr ⟨fits on, ?_, fun f hf => ?_⟩
    · simp only [reported, FunctionDecl.openWarning?, narrowed, FunctionDecl.warning?]
    · rw [← narrowed, ← same]
      exact resolved.exists_kind hf

theorem resolve_reads {source : Source} {ds : List Decl} (parses : source.Parses ds)
    (options : TypingOptions) :
    ∃ p s, resolve source (Session.new options) = .ok (ofProgram p) s ∧ s.options = options ∧
      p.name = source.moduleName ∧ p.filename = some source.filename ∧
      p.decls.map Decl.untyped = ds ∧ s.Declared p.functions := by
  unfold resolve
  rw [bind_of_ok (log_run _ _), bind_of_ok (log_run _ _)]
  generalize recorded : ((Session.new options).record _).record _ = u
  have opened : u.Declared [] := recorded ▸ ((Session.Declared.new options).record _).record _
  have new : u.options = options := recorded ▸ rfl
  obtain ⟨p, s, read, same, name, file, decls, declared⟩ := readProgram_run parses opened
  rw [bind_of_ok read]
  exact ⟨p, _, rfl, same.trans new, name, file, decls, declared.record _⟩

theorem resolve_run {source : Source} {ds : List Decl} (parses : source.Parses ds)
    (options : TypingOptions) :
    ∃ p s, resolve source (Session.new options) = .ok (ofProgram p) s ∧ s.options = options ∧
      p.filename = some source.filename ∧ p.decls.map Decl.untyped = ds ∧
      s.Declared p.functions := by
  obtain ⟨p, s, ran, same, _, file, decls, declared⟩ := resolve_reads parses options
  exact ⟨p, s, ran, same, file, decls, declared⟩

theorem parses_of_readProgram {source : Source} {fs : List FunctionDecl} {s t : Session}
    (declared : s.Declared fs) {p : Program} (read : readProgram source s = .ok (.ok p) t) :
    ∃ ds, source.Parses ds := by
  unfold readProgram at read
  rw [bind_of_ok (log_run _ _)] at read
  cases lexed : tokenize source.text with
  | error e =>
    rw [lexed] at read
    cases read
  | ok tokens =>
    rw [lexed] at read
    dsimp only at read
    rw [bind_of_ok (log_run _ _)] at read
    generalize recorded : (s.record _).record _ = u at read
    have opened : u.Declared fs := recorded ▸ (declared.record _).record _
    cases ran : Program.read source.moduleName (some source.filename) { rest := tokens } u with
    | ok result v =>
      obtain ⟨ds, ds', rest, w, parsed, typed⟩ := Program.parsed_of_read ran
      have written : ∀ f, .function f ∈ ds → f.Written := fun f mem =>
        Parser.items_written (s := { rest := tokens }) (by rwa [parsed])
      exact ⟨ds, ⟨tokens, rest, lexed, parsed⟩, opened.values_of_typed written typed⟩
    | error e v =>
      rw [bind_of_ok (attempt_of_error ran)] at read
      rcases e with (_ | _) | _ <;> cases read

/-- An analysis with a program comes from a text that lexes and parses. -/
theorem parses_of_program {options : TypingOptions} {source : Source} {a : Analysis} {p : Program}
    (analyzed : (analyze options source).1 = .ok a) (program : a.program = some p) :
    ∃ ds, source.Parses ds := by
  unfold analyze conclude at analyzed
  split at analyzed
  next a' s ran =>
    cases analyzed
    obtain ⟨b, t, resolved, inferred⟩ := ok_of_bind ran
    unfold resolve at resolved
    rw [bind_of_ok (log_run _ _), bind_of_ok (log_run _ _)] at resolved
    generalize recorded : ((Session.new options).record _).record _ = u at resolved
    have opened : u.Declared [] := recorded ▸ ((Session.Declared.new options).record _).record _
    obtain ⟨outcome, v, read, rest⟩ := ok_of_bind resolved
    cases outcome with
    | ok p' => exact parses_of_readProgram opened read
    | error d =>
      -- without a program nothing is inferred
      cases rest
      cases inferred
      cases program
  next => cases analyzed

end Analysis

theorem Program.untyped_mem {p : Program} {f : FunctionDecl} (hf : f ∈ p.functions) :
    .function f.untyped ∈ p.decls.map Decl.untyped := by
  obtain ⟨d, mem, eq⟩ := List.mem_filterMap.mp hf
  cases d with
  | exportOf e => cases eq
  | function f' =>
    cases eq
    exact List.mem_map_of_mem mem

theorem Source.Parses.placed {source : Source} {ds : List Decl} (parses : source.Parses ds)
    {p : Program} (same : p.decls.map Decl.untyped = ds) (f : FunctionDecl) (hf : f ∈ p.functions) :
    f.body.span ≠ none := by
  obtain ⟨⟨l, body, _, place⟩, _⟩ := parses.written (same ▸ Program.untyped_mem hf)
  rw [← f.span_untyped, body]
  exact place

theorem Source.Parses.valued {source : Source} {ds : List Decl} (parses : source.Parses ds)
    {p : Program} (same : p.decls.map Decl.untyped = ds) {f : FunctionDecl}
    (hf : f ∈ p.functions) :
    (∃ l value, f.body = .literal l ∧ literalValue l.text l.isDecimal = .ok value) ∧
      ∀ t, f.returnType = some t → ∃ k, Kind.ofSpelling? t.name = some k := by
  have here : .function f.untyped ∈ ds := same ▸ Program.untyped_mem hf
  obtain ⟨⟨l, body, _⟩, named⟩ := parses.written here
  obtain ⟨value, read⟩ := parses.values _ l here body
  cases kept : f.body with
  | literal l' =>
    simp only [FunctionDecl.untyped, kept, Body.literal.injEq] at body named
    subst body
    exact ⟨⟨l', value, rfl, read⟩, fun t type => Option.ne_none_iff_exists'.mp (named t type)⟩
  | other span =>
    simp [FunctionDecl.untyped, kept] at body

/-- An analysis without errors: the program's names are resolved and its session is solved. -/
structure Analysis.Clean (options : TypingOptions) (a : Analysis) (p : Program) (s : Session) :
    Prop where
  program : a.program = some p
  session : a.session = some s
  exports : a.exports = (Names.ofProgram p).exports
  named : (Names.ofProgram p).diagnostics = []
  warnings : a.diagnostics = p.functions.filterMap (·.openWarning? options p.filename)
  flags : s.options = options
  resolved : s.Resolved p.functions
  fits : options.narrowing = true → ∀ f ∈ p.functions, ∀ k, ¬f.Unfit options.exactUnsigned k

theorem FunctionDecl.severity_of_openWarning? {options : TypingOptions} {filename : Option String}
    {f : FunctionDecl} {d : Diagnostic} (warned : f.openWarning? options filename = some d) :
    d.severity = .warning := by
  unfold openWarning? at warned
  split at warned
  next =>
    rw [Literal.eq_of_warning? warned]
    rfl
  next => cases warned

namespace Analysis

theorem hasErrors_of_mem {a : Analysis} {d : Diagnostic} (mem : d ∈ a.diagnostics)
    (error : d.severity = .error) : a.hasErrors = true :=
  List.any_eq_true.mpr ⟨d, mem, decide_eq_true error⟩

theorem Clean.hasErrors_eq_false {options : TypingOptions} {a : Analysis} {p : Program}
    {s : Session} (clean : a.Clean options p s) : a.hasErrors = false := by
  refine List.any_eq_false.mpr fun d mem => ?_
  rw [clean.warnings] at mem
  obtain ⟨f, _, warned⟩ := List.mem_filterMap.mp mem
  simp [FunctionDecl.severity_of_openWarning? warned]

/-- An analysis of a source that lexes and parses has errors exactly if a name has a problem or,
with narrowing, a body does not fit its return type. -/
theorem analyze_run {source : Source} {ds : List Decl} (parses : source.Parses ds)
    (options : TypingOptions) :
    ∃ a p, (analyze options source).1 = .ok a ∧ a.program = some p ∧
      p.name = source.moduleName ∧ p.filename = some source.filename ∧
      p.decls.map Decl.untyped = ds ∧
      (a.hasErrors = true ∧ ((Names.ofProgram p).diagnostics ≠ [] ∨ options.narrowing = true ∧
          ∃ f ∈ p.functions, ∃ k, f.Unfit options.exactUnsigned k) ∨
        ∃ s, a.Clean options p s) := by
  obtain ⟨p, s, resolved, rfl, name, file, same, declared⟩ := resolve_reads parses options
  obtain ⟨a, t, inferred, program, _, exports, outcome⟩ :=
    infer_run (a := ofProgram p) rfl file declared (parses.placed same)
  refine ⟨{ a with session := some t }, p, ?_, program, name, file, same, ?_⟩
  · unfold analyze conclude
    rw [bind_of_ok resolved, inferred]
  rcases outcome with ⟨on, f, hf, k, unfit, reported⟩ | ⟨fits, reported, flags, resolved⟩
  · have mem : .atSpan .error (.typing (.unfit k)) (some source.filename) f.body.span ∈
        a.diagnostics := by simp [reported]
    exact .inl ⟨hasErrors_of_mem mem rfl, .inr ⟨on, f, hf, k, unfit⟩⟩
  · change a.diagnostics = (Names.ofProgram p).diagnostics ++ _ at reported
    cases problems : (Names.ofProgram p).diagnostics with
    | nil =>
      rw [problems, List.nil_append, ← file] at reported
      exact .inr ⟨t, program, rfl, exports, problems, reported, flags, resolved, fits⟩
    | cons d rest =>
      have mem : d ∈ (Names.ofProgram p).diagnostics := by simp [problems]
      refine .inl ⟨hasErrors_of_mem (d := d) ?_ (Names.ofProgram_naming p d mem).1, .inl (by simp)⟩
      simp [reported, problems]

theorem clean_of_analyze {options : TypingOptions} {source : Source} {a : Analysis} {p : Program}
    (analyzed : (analyze options source).1 = .ok a) (program : a.program = some p)
    (errorless : a.hasErrors = false) :
    ∃ ds s, source.Parses ds ∧ p.name = source.moduleName ∧ p.filename = some source.filename ∧
      p.decls.map Decl.untyped = ds ∧ a.Clean options p s := by
  obtain ⟨ds, parses⟩ := parses_of_program analyzed program
  obtain ⟨a', p', analyzed', program', name, file, same, outcome⟩ := analyze_run parses options
  obtain rfl : a' = a := Except.ok.inj (analyzed'.symm.trans analyzed)
  obtain rfl : p' = p := Option.some.inj (program'.symm.trans program)
  rcases outcome with ⟨errors, _⟩ | ⟨s, clean⟩
  · rw [errorless] at errors
    cases errors
  · exact ⟨ds, s, parses, name, file, same, clean⟩

theorem Clean.heard {options : TypingOptions} {a : Analysis} {p : Program} {s : Session}
    (clean : a.Clean options p s) (log : LogSettings) :
    (a.heard log).Clean options p (s.heard log) :=
  { clean with
    session := by simp [Analysis.heard, clean.session]
    resolved := { clean.resolved with } }

theorem clean_of_context {c : Context} {source : Source} {a : Analysis} {p : Program}
    (analyzed : (c.analyze source).1 = .ok a) (program : a.program = some p)
    (errorless : a.hasErrors = false) :
    ∃ ds s, source.Parses ds ∧ p.name = source.moduleName ∧ p.filename = some source.filename ∧
      p.decls.map Decl.untyped = ds ∧ a.Clean c.typing p s := by
  obtain ⟨b, plain, rfl⟩ := Context.exists_analysis analyzed
  obtain ⟨ds, s, parses, name, file, same, clean⟩ := clean_of_analyze plain program errorless
  exact ⟨ds, s.heard c.log, parses, name, file, same, clean.heard c.log⟩

end Analysis

/-- The diagnostic is about types. -/
def Diagnostic.isTyping (d : Diagnostic) : Bool := d.problem.code?.any (·.family = .typ)

/-- What is reported after the names is what is reported about types. -/
theorem Names.typing_append (p : Program) (new : List Diagnostic)
    (typing : ∀ d ∈ new, d.problem.code? = some ⟨.typ, 20⟩ ∨ d.problem.code? = some ⟨.typ, 40⟩) :
    ((Names.ofProgram p).diagnostics ++ new).filter Diagnostic.isTyping = new ∧
      ∀ d ∈ (Names.ofProgram p).diagnostics ++ new,
        d.problem.code? ≠ some ⟨.typ, 10⟩ ∧ d.problem.code? ≠ some ⟨.typ, 30⟩ := by
  have naming : ∀ d ∈ (Names.ofProgram p).diagnostics, ∃ n, d.problem.code? = some ⟨.res, n⟩ := by
    intro d mem
    obtain ⟨_, problem, eq⟩ := Names.ofProgram_naming p d mem
    rw [eq]
    cases problem <;> exact ⟨_, rfl⟩
  constructor
  · have none : (Names.ofProgram p).diagnostics.filter Diagnostic.isTyping = [] := by
      refine List.filter_eq_nil_iff.mpr fun d mem => ?_
      obtain ⟨n, code⟩ := naming d mem
      simp [Diagnostic.isTyping, code]
    have all : new.filter Diagnostic.isTyping = new := by
      refine List.filter_eq_self.mpr fun d mem => ?_
      rcases typing d mem with code | code <;> simp [Diagnostic.isTyping, code]
    rw [List.filter_append, none, all, List.nil_append]
  · intro d mem
    rcases List.mem_append.mp mem with mem | mem
    · obtain ⟨n, code⟩ := naming d mem
      simp [code]
    · rcases typing d mem with code | code <;> simp [code]

theorem FunctionDecl.code_of_warning? {exact : Bool} {filename : Option String} {f : FunctionDecl}
    {d : Diagnostic} (warned : f.warning? exact filename = some d) :
    d.problem.code? = some ⟨.typ, 40⟩ := by
  unfold warning? at warned
  split at warned
  next =>
    rw [Literal.eq_of_warning? warned]
    rfl
  next => cases warned

/-- An analysis of a source that lexes and parses agrees with a check of each function on its own.
If a body does not fit a return type, one such body is the only problem with types that is reported.
Otherwise each body gets the kind that its function gives it, and the bodies without one are
reported in their order. -/
theorem analyze_checks_each_function {source : Source} {ds : List Decl} (parses : source.Parses ds)
    (c : Context) (on : c.typing.narrowing = true) :
    ∃ a p s, (c.analyze source).1 = .ok a ∧ a.program = some p ∧ a.session = some s ∧
      p.decls.map Decl.untyped = ds ∧
      ((∃ f ∈ p.functions, ∃ k, f.Unfit c.typing.exactUnsigned k) →
        ∃ f ∈ p.functions, ∃ k span, f.Unfit c.typing.exactUnsigned k ∧ f.body.span = some span ∧
          a.diagnostics.filter Diagnostic.isTyping =
            [.atSpan .error (.typing (.unfit k)) (some source.filename) (some span)]) ∧
      ((∀ f ∈ p.functions, ∀ k, ¬f.Unfit c.typing.exactUnsigned k) →
        a.diagnostics.filter Diagnostic.isTyping =
          p.functions.filterMap (·.warning? c.typing.exactUnsigned (some source.filename)) ∧
        ∀ f ∈ p.functions, ∃ h t, f.body.type = some h ∧
          Session.reifyKind h s = .ok (f.bodyKind? c.typing.exactUnsigned) t) ∧
      ∀ d ∈ a.diagnostics,
        d.problem.code? ≠ some ⟨.typ, 10⟩ ∧ d.problem.code? ≠ some ⟨.typ, 30⟩ := by
  obtain ⟨p, s, resolved, flags, file, same, declared⟩ := Analysis.resolve_run parses c.typing
  rw [← flags] at on ⊢
  obtain ⟨a, t, inferred, program, outcome⟩ :=
    Analysis.infer_ends (a := Analysis.ofProgram p) rfl file declared (parses.placed same) on
  have analyzed : (analyze c.typing source).1 = .ok { a with session := some t } := by
    unfold analyze Analysis.conclude
    rw [bind_of_ok resolved, inferred]
  refine ⟨_, p, t.heard c.log, c.analyze_of_ok analyzed, program, rfl, same, ?_⟩
  rcases outcome with ⟨f, hf, k, unfit, reported⟩ | ⟨fits, reported, kinds⟩
  · obtain ⟨span, place⟩ := Option.ne_none_iff_exists'.mp (parses.placed same f hf)
    obtain ⟨typing, codes⟩ := Names.typing_append p
      [.atSpan .error (.typing (.unfit k)) (some source.filename) f.body.span] (by
        intro d mem
        rw [List.mem_singleton.mp mem]
        exact .inl rfl)
    refine ⟨fun _ => ⟨f, hf, k, span, unfit, place, ?_⟩, fun fits => absurd unfit (fits f hf k), ?_⟩
    · rw [reported, ← place]
      exact typing
    · rw [reported]
      exact codes
  · obtain ⟨typing, codes⟩ := Names.typing_append p
      (p.functions.filterMap (·.warning? s.options.exactUnsigned (some source.filename))) (by
        intro d mem
        obtain ⟨f, _, warned⟩ := List.mem_filterMap.mp mem
        exact .inr (FunctionDecl.code_of_warning? warned))
    refine ⟨?_, fun _ => ⟨?_, fun f hf => ?_⟩, ?_⟩
    · rintro ⟨f, hf, k, unfit⟩
      exact absurd unfit (fits f hf k)
    · rw [reported]
      exact typing
    · obtain ⟨h, t', type, kind⟩ := kinds f hf
      exact ⟨h, _, type, Session.reifyKind_heard kind c.log⟩
    · rw [reported]
      exact codes

/-- Two functions of one return type, of which the second does not fit it. -/
def twoBytes : Source := { text := "function f: u8 5\nfunction g: u8 300" }

/-- A function that stands on a line of its own. -/
def byteFunction (name text : String) (line : Int) : FunctionDecl :=
  { name
    returnType := some ⟨"u8", some ⟨line, 13, line, 15⟩⟩
    body := .literal ⟨text, false, none, some ⟨line, 16, line, 16 + text.length⟩⟩
    span := some ⟨line, 1, line, 16 + text.length⟩ }

theorem twoBytes_parses :
    twoBytes.Parses [.function (byteFunction "f" "5" 1), .function (byteFunction "g" "300" 2)] := by
  constructor
  · have read : (match tokenize twoBytes.text with
        | .ok tokens =>
          match Parser.items { rest := tokens } with
          | (ds, .ok _) =>
            decide (ds = [.function (byteFunction "f" "5" 1), .function (byteFunction "g" "300" 2)])
          | (_, .error _) => false
        | .error _ => false) = true := by decide +kernel
    split at read
    next tokens lexed =>
      split at read
      next ds rest parsed =>
        rw [of_decide_eq_true read] at parsed
        exact ⟨tokens, rest, lexed, parsed⟩
      next => cases read
    next => cases read
  · intro f l mem body
    simp only [List.mem_cons, Decl.function.injEq, List.not_mem_nil, or_false] at mem
    rcases mem with rfl | rfl
    · cases body
      exact ⟨.integer 5, by decide +kernel⟩
    · cases body
      exact ⟨.integer 300, by decide +kernel⟩

theorem analyze_checks_each_function_twoBytes :
    (∃ ds, twoBytes.Parses ds) ∧ ∃ a k span, (Context.analyze {} twoBytes).1 = .ok a ∧
      a.diagnostics.filter Diagnostic.isTyping =
        [.atSpan .error (.typing (.unfit k)) (some "<input>") (some span)] := by
  refine ⟨⟨_, twoBytes_parses⟩, ?_⟩
  obtain ⟨a, p, s, analyzed, _, _, same, unfit, _⟩ :=
    analyze_checks_each_function twoBytes_parses {} rfl
  have mem : Decl.function (byteFunction "g" "300" 2) ∈ p.decls.map Decl.untyped := by simp [same]
  obtain ⟨d, hd, eq⟩ := List.mem_map.mp mem
  have bad : ∃ f ∈ p.functions, ∃ k, f.Unfit false k := by
    cases d with
    | exportOf e => cases eq
    | function f =>
      refine ⟨f, List.mem_filterMap.mpr ⟨_, hd, rfl⟩, .u8, ?_⟩
      rw [← f.unfit_untyped, Decl.function.inj eq]
      exact ⟨by decide +kernel, by decide +kernel⟩
  obtain ⟨f, _, k, span, _, _, reported⟩ := unfit bad
  exact ⟨a, k, span, analyzed, reported⟩

end ConstFun
