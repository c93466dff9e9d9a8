import ConstFun.Command.Run
import ConstFun.Proofs.Logging
import ConstFun.Proofs.Outcomes
import ConstFun.Proofs.Paths

namespace ConstFun

/-- Whatever an act does, also if it fails, the log names nodes. -/
theorem Effect.log_named {narrowing : Bool} {p q : Point} (effect : Effect narrowing p q)
    (con : p.Consistent) (named : ∀ c ∈ p.solver.store.log.toList, c.Names p.solver.graph) :
    ∀ c ∈ q.solver.store.log.toList, c.Names q.solver.graph := by
  have nodes : ∀ h, p.solver.graph.Has h → q.solver.graph.Has h :=
    fun h => (effect.has_iff con).mpr
  have kept : ∀ c ∈ p.solver.store.log.toList, c.Names q.solver.graph :=
    fun c mem => (named c mem).imp nodes
  by_cases fails : ∃ e, q.stage = .failed e
  · have same : q.solver.store.log = p.solver.store.log := by
      cases effect with
      | clash _ _ _ | unknown _ | refuse _ _ | unsettled _ _ _ => rfl
      | @settled s r done emitted => rfl
      | _ => simp at fails
    rw [same]
    exact kept
  · have runs : ∀ e, q.stage ≠ .failed e := fun e failed => fails ⟨e, failed⟩
    obtain ⟨new, log, _, names⟩ := effect.emits con runs
    intro c mem
    rw [log] at mem
    rcases List.mem_append.mp mem with mem | mem
    · exact kept c mem
    · exact names c mem

theorem Passes.log_named {narrowing : Bool} {first : Solver} {p : Point}
    (passes : Passes narrowing (Point.start first) p) (con : first.Consistent)
    (named : ∀ c ∈ first.store.log.toList, c.Names first.graph) :
    ∀ c ∈ p.solver.store.log.toList, c.Names p.solver.graph :=
  passes.induct (I := fun p => ∀ c ∈ p.solver.store.log.toList, c.Names p.solver.graph)
    con.start named fun con effect => effect.log_named con

namespace Session

variable {fs : List FunctionDecl} {s t : Session}

/-- Whatever functions, literals and constraints say of types is in the graph, solved or not. -/
structure Anchored (fs : List FunctionDecl) (s : Session) : Prop where
  forest : s.graph.WellFormed
  bodies : fs.map (·.body) = s.literals.map TypedLiteral.body
  nodes : ∀ l ∈ s.literals, s.graph.Has l.handle
  named : ∀ c ∈ s.store.log.toList, c.Names s.graph

theorem Anchored.of_eq (anchored : Anchored fs s) (graph : t.graph = s.graph)
    (store : t.store = s.store) (literals : t.literals = s.literals) : Anchored fs t where
  forest := graph ▸ anchored.forest
  bodies := literals ▸ anchored.bodies
  nodes := by
    rw [graph, literals]
    exact anchored.nodes
  named := by
    rw [graph, store]
    exact anchored.named

theorem Anchored.classKind_eq (anchored : Anchored fs s) {l : TypedLiteral} (hl : l ∈ s.literals) :
    s.graph.classKind l.handle = .ok (s.graph.classKind? l.handle) :=
  TypeGraph.kindOf_eq (anchored.forest.root_has (anchored.nodes l hl))

theorem Anchored.exists_classKind (anchored : Anchored fs s) {f : FunctionDecl} (hf : f ∈ fs)
    {h : Handle} (type : f.body.type = some h) :
    ∃ kind, s.graph.classKind h = .ok kind := by
  obtain ⟨l, hl, body⟩ := TypedLiteral.exists_of_bodies anchored.bodies hf
  rw [body, l.body_type, Option.some.injEq] at type
  exact ⟨_, type ▸ anchored.classKind_eq hl⟩

theorem Declared.solve_anchored (declared : Declared fs s) :
    Ends Session.solve s (fun _ t => t.Anchored fs) (fun _ t => t.Anchored fs) := by
  have con := declared.laid.consistent
  have named : ∀ c ∈ s.store.log.toList, c.Names s.graph := by
    rw [declared.laid.waiting]
    exact declared.laid.named
  have reached : ∀ {p : Point}, Passes s.options.narrowing (Point.start s.toSolver) p →
      Anchored fs { s with toSolver := p.solver, solved := true } := by
    intro p passes
    refine ⟨(passes.consistent con.start).solver.forest, declared.bodies, fun l hl => ?_,
      passes.log_named con named⟩
    exact (passes.has_iff con _).mpr (declared.laid.isVariable l hl).1
  have ends : Ends (SolverM.solve s.options.narrowing) s.toSolver
      (fun _ t => Anchored fs { s with toSolver := t, solved := true })
      (fun _ t => Anchored fs { s with toSolver := t, solved := true }) := by
    refine (ConstFun.solve_ends s.options.narrowing con).imp ?_ ?_
    · rintro count _ ⟨last, r, solved, _, _, rfl, passes⟩
      exact (reached passes).of_eq rfl rfl rfl
    · rintro e t ⟨r, solved, passes⟩
      exact reached passes
  unfold Ends at ends ⊢
  rw [solve_eq, declared.laid.unsolved]
  simp only [Bool.false_eq_true, if_false, onSolver]
  cases ran : SolverM.solve s.options.narrowing s.toSolver with
  | ok count t => simpa [ran] using ends
  | error e t => simpa [ran] using ends

end Session

namespace Analysis

variable {options : TypingOptions} {source : Source} {a : Analysis} {p : Program}

theorem infer_anchored {filename : String} {s t : Session} {a' : Analysis}
    (program : a.program = some p) (declared : s.Declared p.functions)
    (ran : infer filename a s = .ok a' t) : t.Anchored p.functions := by
  obtain ⟨journal, inferred⟩ := infer_cases program filename s
  have ends := (declared.log journal).solve_anchored
  unfold Ends at ends inferred
  split at ends
  next count v solved =>
    rw [solved] at inferred
    obtain ⟨journal, reviews⟩ := inferred
    obtain ⟨b, _, reviewed, _⟩ := review_run (s := { v with journal }) p.filename v.literals
      ends.forest ends.nodes a
    rw [reviewed] at reviews
    obtain ⟨_, ran'⟩ := reviews
    cases ran.symm.trans ran'
    exact ends.of_eq rfl rfl rfl
  next e v failed =>
    rw [failed] at inferred
    rcases inferred with ⟨_, _, ran'⟩ | ⟨_, _, _, ran'⟩
    · cases ran.symm.trans ran'
      exact ends
    · cases ran.symm.trans ran'

/-- The session of an analysis with a program knows all its types. -/
theorem anchored_of_analyze (analyzed : (analyze options source).1 = .ok a)
    (program : a.program = some p) : ∃ s, a.session = some s ∧ s.Anchored p.functions := by
  obtain ⟨ds, parses⟩ := parses_of_program analyzed program
  obtain ⟨p', s, resolved, _, file, same, declared⟩ := resolve_run parses options
  obtain ⟨b, t, inferred, program', _⟩ :=
    infer_run (a := ofProgram p') rfl file declared (parses.placed same)
  have anchored := infer_anchored (a := ofProgram p') rfl declared inferred
  unfold analyze conclude at analyzed
  rw [bind_of_ok resolved, inferred] at analyzed
  cases analyzed
  cases program'.symm.trans program
  exact ⟨t, rfl, anchored⟩

end Analysis

theorem Names.filename_ofProgram (p : Program) :
    ∀ d ∈ (Names.ofProgram p).diagnostics, d.filename = p.filename := by
  have reported : ∀ (n : Names) (problem : NameProblem) (span : Option Span),
      (∀ d ∈ n.diagnostics, d.filename = p.filename) →
      ∀ d ∈ (n.report problem p.filename span).diagnostics, d.filename = p.filename := by
    intro n problem span same d mem
    rcases List.mem_append.mp mem with old | mem
    · exact same d old
    · rw [List.mem_singleton.mp mem]
      rfl
  have functions : ∀ d ∈ (p.functions.foldl (addFunction p.filename) {}).diagnostics,
      d.filename = p.filename := by
    refine List.foldlRecOn (motive := fun n : Names =>
      ∀ d ∈ n.diagnostics, d.filename = p.filename) _ _ (by simp) fun n same f _ => ?_
    unfold addFunction
    split
    · exact reported n _ _ same
    · exact same
  refine List.foldlRecOn (motive := fun n : Names =>
    ∀ d ∈ n.diagnostics, d.filename = p.filename) _ _ functions fun n same e _ => ?_
  unfold addExport
  split
  · exact reported n _ _ same
  · split
    · exact reported n _ _ same
    · exact same

theorem FunctionDecl.eq_of_openWarning? {options : TypingOptions} {filename : Option String}
    {f : FunctionDecl} {d : Diagnostic} (warned : f.openWarning? options filename = some d) :
    ∃ text, d = .atSpan .warning (.ambiguous text) filename f.body.span := by
  unfold openWarning? at warned
  split at warned
  next l body =>
    rw [body]
    exact ⟨l.text, Literal.eq_of_warning? warned⟩
  next => cases warned

/-- All diagnostics of an analysis are about its file. -/
theorem Analysis.filename_of_analyze {options : TypingOptions} {source : Source} {a : Analysis}
    (analyzed : (analyze options source).1 = .ok a) :
    ∀ d ∈ a.diagnostics, d.filename = some source.filename := by
  intro d mem
  cases reports_of_analyze analyzed with
  | lexical _ _ diagnostics =>
    rw [diagnostics, List.mem_singleton] at mem
    rw [mem]
    rfl
  | grammatical _ _ _ diagnostics =>
    rw [diagnostics, List.mem_singleton] at mem
    rw [mem]
    rfl
  | @read tokens ds rest p types lexed parsed program name file decls typing diagnostics =>
    rw [diagnostics] at mem
    rcases List.mem_append.mp mem with naming | mem
    · rw [Names.filename_ofProgram p d naming, file]
    · rcases typing with ⟨_, f, _, k, _, rfl⟩ | ⟨_, rfl⟩
      · rw [List.mem_singleton.mp mem, ← file]
        rfl
      · obtain ⟨f, _, warned⟩ := List.mem_filterMap.mp mem
        obtain ⟨text, rfl⟩ := FunctionDecl.eq_of_openWarning? warned
        exact file

/-- Diagnostics are reported as long as no file they are about is undecodable. -/
theorem reportAll_run (directory : String) {read : TextReader} {ds : List Diagnostic}
    (readable : ∀ d ∈ ds, ∃ lines, d.readSnippet read = .ok lines) (events : Array Event) :
    ∃ events', reportAll directory read ds events = .ok () events' := by
  unfold reportAll
  induction ds generalizing events with
  | nil => exact ⟨events, rfl⟩
  | cons d ds ih =>
    obtain ⟨lines, snippet⟩ := readable d (by simp)
    have first : ∃ events', d.report directory read events = .ok () events' := by
      unfold Diagnostic.report
      rw [bind_of_ok (modify_run _ _), snippet]
      exact ⟨_, rfl⟩
    obtain ⟨events', ran⟩ := first
    obtain ⟨events'', rest⟩ := ih (fun d mem => readable d (by simp [mem])) events'
    exact ⟨events'', (bind_of_ok ran).trans rest⟩

/-- The snippet of a diagnostic about a path that was read is from the text of that path. -/
theorem Diagnostic.readSnippet_eq {read : TextReader} {path : PathName} {text : String}
    (plain : path.Plain) (readable : read path = .ok text) {d : Diagnostic}
    (file : d.filename = some path.text) :
    d.readSnippet read = .ok (d.snippet (displayLines text)) := by
  have named : d.filename.filter (· ≠ "") = some path.text := by
    rw [file]
    simp [path.text_ne_empty]
  unfold readSnippet
  rw [named]
  cases placed : d.line with
  | none => simp only [snippet, placed]
  | some line =>
    dsimp only
    rw [plain.ofText_text, readable]

namespace Outline

variable {showType : Handle → Except Fault String}

/-- An outline has lines: every type in it can be shown. -/
def Shown (showType : Handle → Except Fault String) (o : Outline) : Prop :=
  ∀ indent, ∃ lines, o.lines showType indent = .ok lines

theorem shown_scalar (value : Scalar) : Shown showType (.scalar value) := fun _ => ⟨_, rfl⟩

theorem shown_ofOption {α : Type} {f : α → Outline} (each : ∀ a, Shown showType (f a))
    (value : Option α) : Shown showType (ofOption f value) := by
  cases value with
  | none => exact shown_scalar _
  | some a => exact each a

theorem shown_list {items : List Outline} (each : ∀ o ∈ items, Shown showType o) :
    Shown showType (.list items) := by
  intro indent
  change ∃ lines, itemLines showType indent items = .ok lines
  induction items with
  | nil => exact ⟨[], rfl⟩
  | cons o items ih =>
    obtain ⟨first, shown⟩ := each o (by simp) indent
    obtain ⟨rest, below⟩ := ih fun o mem => each o (by simp [mem])
    unfold itemLines
    rw [shown, below]
    exact ⟨first ++ rest, rfl⟩

theorem fieldLines_run (name : String) {o : Outline} (shown : Shown showType o) (indent : Int) :
    ∃ lines, fieldLines showType indent (name, o) = .ok lines := by
  obtain ⟨lines, below⟩ := shown (indent + 2)
  cases o with
  | scalar value => exact ⟨[], rfl⟩
  | list items =>
    cases items with
    | nil => exact ⟨[], rfl⟩
    | cons item items =>
      unfold fieldLines
      rw [below]
      exact ⟨_, rfl⟩
  | node label fields type span =>
    unfold fieldLines
    rw [below]
    exact ⟨_, rfl⟩

theorem shown_node {label : String} {fields : List (String × Outline)} {type : Option Handle}
    {span : Option Span} (known : ∀ h, type = some h → ∃ text, showType h = .ok text)
    (each : ∀ field ∈ fields, Shown showType field.2) :
    Shown showType (.node label fields type span) := by
  intro indent
  have below : ∃ lines, fieldsLines showType indent fields = .ok lines := by
    induction fields with
    | nil => exact ⟨[], rfl⟩
    | cons field fields ih =>
      obtain ⟨first, shown⟩ := fieldLines_run field.1 (each field (by simp)) indent
      obtain ⟨rest, below⟩ := ih fun field mem => each field (by simp [mem])
      unfold fieldsLines
      rw [shown, below]
      exact ⟨first ++ rest, rfl⟩
  have typed : ∃ text, typeText showType type = .ok text := by
    cases type with
    | none => exact ⟨"", rfl⟩
    | some h =>
      obtain ⟨text, known⟩ := known h rfl
      unfold typeText
      dsimp only
      rw [known]
      exact ⟨_, rfl⟩
  obtain ⟨lines, below⟩ := below
  obtain ⟨text, typed⟩ := typed
  unfold Outline.lines
  rw [typed, below]
  exact ⟨_, rfl⟩

end Outline

section Outlines

open Outline

variable {showType : Handle → Except Fault String}

theorem Body.outline_shown {b : Body}
    (known : ∀ h, b.type = some h → ∃ text, showType h = .ok text) : Shown showType b.outline := by
  cases b with
  | other span => exact shown_node (by simp) (by simp)
  | literal l => exact shown_node known (by simp [Outline.text, shown_scalar])

theorem Decl.outline_shown {d : Decl}
    (known : ∀ f, d = .function f → ∀ h, f.body.type = some h → ∃ text, showType h = .ok text) :
    Shown showType d.outline := by
  cases d with
  | exportOf e => exact shown_node (by simp) (by simp [Outline.text, shown_scalar])
  | function f =>
    have type : Shown showType (.ofOption TypeName.outline f.returnType) :=
      shown_ofOption (fun t => shown_node (by simp) (by simp [Outline.text, shown_scalar])) _
    have body := Body.outline_shown (known f rfl)
    have own : Shown showType (.ofOption .text f.exportAs) :=
      shown_ofOption (fun _ => shown_scalar _) _
    refine shown_node (by simp) ?_
    simp [Outline.text, shown_scalar, type, body, own]

theorem Program.outline_shown {p : Program}
    (known : ∀ f ∈ p.functions, ∀ h, f.body.type = some h → ∃ text, showType h = .ok text) :
    Shown showType p.outline := by
  have decls : Shown showType (.list (p.decls.map Decl.outline)) := by
    refine shown_list fun o mem => ?_
    obtain ⟨d, here, rfl⟩ := List.mem_map.mp mem
    refine Decl.outline_shown ?_
    rintro f rfl
    exact known f (List.mem_filterMap.mpr ⟨.function f, here, rfl⟩)
  have file : Shown showType (.ofOption .text p.filename) :=
    shown_ofOption (fun _ => shown_scalar _) _
  refine shown_node (by simp) ?_
  simp [Outline.text, shown_scalar, decls, file]

end Outlines

namespace Command

variable {a : Analysis} {p : Program} {s : Session}

theorem liftFault_of_ok {α : Type} {e : Except Fault α} {value : α} (known : e = .ok value)
    (events : Array Event) : liftFault e events = .ok value events := by
  rw [known]
  rfl

/-- Lines are listed, if each of them can be made. -/
theorem mapM_run {α : Type} (line : α → CommandM String) (xs : List α) (events : Array Event)
    (each : ∀ x ∈ xs, ∃ text, line x events = .ok text events) :
    ∃ lines, xs.mapM line events = .ok lines events := by
  induction xs with
  | nil => exact ⟨[], rfl⟩
  | cons x xs ih =>
    obtain ⟨text, first⟩ := each x (by simp)
    obtain ⟨lines, rest⟩ := ih fun x mem => each x (by simp [mem])
    refine ⟨text :: lines, ?_⟩
    rw [List.mapM_cons, bind_of_ok first, bind_of_ok rest]
    rfl

theorem exitCode_of_errors (errors : a.hasErrors = true) : exitCode a = 1 := by
  simp [exitCode, errors]

theorem returnKind_run (session : a.session = some s) (anchored : s.Anchored p.functions)
    {f : FunctionDecl} (hf : f ∈ p.functions) : ∃ kind, a.returnKind f = .ok kind := by
  unfold Analysis.returnKind
  rw [session]
  cases f.returnType with
  | some t => exact ⟨_, rfl⟩
  | none =>
    cases type : f.body.type with
    | none => exact ⟨_, rfl⟩
    | some h => exact anchored.exists_classKind hf type

/-- An outline is a success, whatever the errors. -/
theorem showOutline_run (program : a.program = some p) (session : a.session = some s)
    (anchored : s.Anchored p.functions) (events : Array Event) :
    ∃ printed, showOutline a events = .ok ⟨printed, .exit 0⟩ events := by
  unfold showOutline
  rw [program, session]
  dsimp only
  cases solved : (some s).filter (·.solved) with
  | none =>
    have shown : Outline.Shown showHandle p.outline :=
      Program.outline_shown fun _ _ _ _ => ⟨_, rfl⟩
    obtain ⟨lines, ran⟩ := shown 0
    rw [bind_of_ok (liftFault_of_ok ran events)]
    exact ⟨_, rfl⟩
  | some s' =>
    obtain rfl : s = s' := Option.some.inj (Option.filter_eq_some_iff.mp solved).1
    have shown : Outline.Shown (fun h => (s.graph.classKind h).map formatKind) p.outline := by
      refine Program.outline_shown fun f hf h type => ?_
      obtain ⟨kind, known⟩ := anchored.exists_classKind hf type
      exact ⟨formatKind kind, by rw [known]; rfl⟩
    obtain ⟨lines, ran⟩ := shown 0
    rw [bind_of_ok (liftFault_of_ok ran events)]
    exact ⟨_, rfl⟩

theorem functionLine_run (session : a.session = some s) (anchored : s.Anchored p.functions)
    {f : FunctionDecl} (hf : f ∈ p.functions) (events : Array Event) :
    ∃ text, functionLine a f events = .ok text events := by
  obtain ⟨kind, known⟩ := returnKind_run session anchored hf
  unfold functionLine
  rw [bind_of_ok (liftFault_of_ok known events)]
  exact ⟨_, rfl⟩

theorem literalLine_run (anchored : s.Anchored p.functions) {l : TypedLiteral}
    (hl : l ∈ s.literals) (events : Array Event) :
    ∃ text, literalLine s l events = .ok text events := by
  unfold literalLine
  rw [bind_of_ok (liftFault_of_ok (anchored.classKind_eq hl) events)]
  exact ⟨_, rfl⟩

theorem constraintLine_run (anchored : s.Anchored p.functions) {c : Constraint}
    (mem : c ∈ s.store.log.toList) (index : Nat) (events : Array Event) :
    ∃ text, constraintLine s.graph index c events = .ok text events := by
  obtain ⟨left, right⟩ := anchored.named c mem
  obtain ⟨text, rendered⟩ := SolverM.render_run left right
  unfold constraintLine
  rw [bind_of_ok (liftFault_of_ok rendered events)]
  exact ⟨_, rfl⟩

theorem listTypes_run (errors : a.hasErrors = true) (program : a.program = some p)
    (session : a.session = some s) (anchored : s.Anchored p.functions) (events : Array Event) :
    ∃ printed, listTypes a events = .ok ⟨printed, .exit 1⟩ events := by
  obtain ⟨functions, ran⟩ := mapM_run (functionLine a) p.functions events fun f hf =>
    functionLine_run session anchored hf events
  obtain ⟨literals, ran'⟩ := mapM_run (literalLine s) s.literals events fun l hl =>
    literalLine_run anchored hl events
  unfold listTypes
  rw [program, session]
  cases solved : (some s).filter (·.solved) with
  | none => exact ⟨_, rfl⟩
  | some s' =>
    obtain rfl : s = s' := Option.some.inj (Option.filter_eq_some_iff.mp solved).1
    dsimp only
    rw [bind_of_ok ran, bind_of_ok ran', exitCode_of_errors errors]
    exact ⟨_, rfl⟩

theorem listConstraints_run (errors : a.hasErrors = true) (program : a.program = some p)
    (session : a.session = some s) (anchored : s.Anchored p.functions) (events : Array Event) :
    ∃ printed, listConstraints a events = .ok ⟨printed, .exit 1⟩ events := by
  have listed : ∃ lines,
      (s.store.log.toList.zipIdx.mapM fun (c, index) => constraintLine s.graph index c) events =
        .ok lines events := by
    refine mapM_run _ _ events ?_
    rintro ⟨c, index⟩ mem
    exact constraintLine_run anchored (List.fst_mem_of_mem_zipIdx mem) index events
  obtain ⟨lines, ran⟩ := listed
  unfold listConstraints
  rw [program, session]
  dsimp only
  rw [bind_of_ok ran, exitCode_of_errors errors]
  exact ⟨_, rfl⟩

end Command

/-- The entry of an invocation as a source, with the text that is read from it. -/
def Invocation.source (i : Invocation) (text : String) : Source :=
  ⟨text, (PathName.ofText i.entry).text, (PathName.ofText i.entry).stem⟩

theorem Invocation.source_filename (i : Invocation) (text : String) :
    (i.source text).filename = (PathName.ofText i.entry).text := by
  simp only [source]

/-- The entry can be analysed and its diagnostics reported, if the entry can be read. -/
theorem Command.analyzed_run {env : Environment} {i : Invocation} {read : TextReader}
    {text : String} {a : Analysis} (readable : read (.ofText i.entry) = .ok text)
    (found : ((i.context env).analyze (i.source text)).1 = .ok a) :
    ∃ events, Command.analyzed env read i #[] = .ok a events := by
  have entry : ∃ events, analyzeFile read (i.context env) (.ofText i.entry) #[] = .ok a events := by
    unfold Invocation.source at found
    unfold analyzeFile
    rw [readable]
    dsimp only
    rw [bind_of_ok (modify_run _ _), found]
    exact ⟨_, rfl⟩
  obtain ⟨events, ran⟩ := entry
  obtain ⟨b, plain, rfl⟩ := Context.exists_analysis found
  have snippets : ∀ d ∈ b.diagnostics, ∃ lines, d.readSnippet read = .ok lines := by
    intro d mem
    have file := Analysis.filename_of_analyze plain d mem
    rw [Invocation.source_filename] at file
    exact ⟨_, Diagnostic.readSnippet_eq (PathName.plain_ofText i.entry) readable file⟩
  obtain ⟨events', reported⟩ := reportAll_run env.directory snippets events
  have done : reportDiagnostics env.directory read (b.heard (i.context env).log).diagnostics
      events = .ok () events' := adaptExcept_of_ok reported
  unfold Command.analyzed
  rw [bind_of_ok ran, bind_of_ok done]
  exact ⟨events', rfl⟩

/-- The code that a command exits with after an analysis with errors. -/
def Invocation.codeOfErrors (i : Invocation) (a : Analysis) : Nat :=
  if i.command = .outline ∧ a.program.isSome then 0 else 1

theorem Invocation.run_of_errors {env : Environment} {i : Invocation} {read : TextReader}
    {a : Analysis} {events : Array Event} (analyzing : i.command ≠ .tokens)
    (ran : Command.analyzed env read i #[] = .ok a events) (errors : a.hasErrors = true)
    (known : ∀ p, a.program = some p → ∃ s, a.session = some s ∧ s.Anchored p.functions) :
    ∃ printed, i.run env read #[] = .ok ⟨printed, .exit (i.codeOfErrors a)⟩ events := by
  have failed : ∀ command, i.command = command → command ≠ .outline → i.codeOfErrors a = 1 := by
    rintro _ rfl other
    simp [codeOfErrors, other]
  have exits := Command.exitCode_of_errors errors
  have compiled : ∃ printed, Command.compile env read i #[] = .ok ⟨printed, .exit 1⟩ events := by
    unfold Command.compile
    rw [bind_of_ok ran, exits]
    exact ⟨[], rfl⟩
  unfold run
  cases command : i.command with
  | tokens => exact absurd command analyzing
  | build =>
    rw [failed _ command (by decide)]
    exact compiled
  | generate =>
    rw [failed _ command (by decide)]
    exact compiled
  | check =>
    rw [failed _ command (by decide)]
    dsimp only
    rw [bind_of_ok ran, exits]
    exact ⟨[], rfl⟩
  | outline =>
    dsimp only
    rw [bind_of_ok ran]
    cases program : a.program with
    | none =>
      have code : i.codeOfErrors a = 1 := by simp [codeOfErrors, program]
      rw [code, Command.showOutline, program]
      exact ⟨[], rfl⟩
    | some p =>
      have code : i.codeOfErrors a = 0 := by simp [codeOfErrors, command, program]
      obtain ⟨s, session, anchored⟩ := known p program
      rw [code]
      exact Command.showOutline_run program session anchored events
  | types =>
    rw [failed _ command (by decide)]
    dsimp only
    rw [bind_of_ok ran]
    cases program : a.program with
    | none =>
      rw [Command.listTypes, program]
      exact ⟨[], rfl⟩
    | some p =>
      obtain ⟨s, session, anchored⟩ := known p program
      exact Command.listTypes_run errors program session anchored events
  | constraints =>
    rw [failed _ command (by decide)]
    dsimp only
    rw [bind_of_ok ran]
    cases program : a.program with
    | none =>
      rw [Command.listConstraints, program]
      exact ⟨[], rfl⟩
    | some p =>
      obtain ⟨s, session, anchored⟩ := known p program
      exact Command.listConstraints_run errors program session anchored events

/-- A command that ends with an exit code leaves the files as they are. -/
theorem FileTree.perform_of_exit {t : FileTree} {env : Environment} {i : Invocation}
    {printed : List String} {code : Nat} {events : Array Event}
    (ran : i.run env t.readText #[] = .ok ⟨printed, .exit code⟩ events) :
    (t.perform env i).1.stdout = String.join printed ∧ (t.perform env i).1.result = .ok code ∧
      (t.perform env i).2 = t := by
  unfold perform Invocation.perform
  rw [ran]
  exact ⟨rfl, rfl, rfl⟩

/-- After an analysis with errors every command but the listing of tokens exits with 1 and writes
no file, except that the outline of a program counts as a success. -/
theorem FileTree.exits_after_errors {t : FileTree} {env : Environment} {i : Invocation}
    {text : String} {a : Analysis} (analyzing : i.command ≠ .tokens)
    (readable : t.readText (.ofText i.entry) = .ok text)
    (found : ((i.context env).analyze (i.source text)).1 = .ok a) (errors : a.hasErrors = true) :
    (t.perform env i).1.result =
        .ok (if i.command = .outline ∧ a.program.isSome then 0 else 1) ∧
      (t.perform env i).2 = t := by
  obtain ⟨events, ran⟩ := Command.analyzed_run readable found
  obtain ⟨b, plain, rfl⟩ := Context.exists_analysis found
  have known : ∀ p, (b.heard (i.context env).log).program = some p →
      ∃ s, (b.heard (i.context env).log).session = some s ∧ s.Anchored p.functions := by
    intro p program
    obtain ⟨s, session, anchored⟩ := Analysis.anchored_of_analyze plain program
    refine ⟨s.heard (i.context env).log, ?_, anchored.of_eq rfl rfl rfl⟩
    simp [Analysis.heard, session]
  obtain ⟨printed, ended⟩ := Invocation.run_of_errors analyzing ran errors known
  exact (perform_of_exit ended).2

/-- An environment that tells no time. -/
def Environment.untimed : Environment := { directory := "/w", clock := fun _ => "" }

namespace FileTree

/-- A file that exports a function without declaring it. -/
def unknownExport : FileTree := { entries := ⟨[(["main.ff"], .file "export f\n".toUTF8)]⟩ }

/-- A command on that file. -/
def onUnknownExport (command : Command) : Invocation := { command, entry := "main.ff" }

theorem exits_after_errors_unknownExport :
    unknownExport.readText (.ofText "main.ff") = .ok "export f\n" ∧
      ∃ a, (((onUnknownExport .types).context .untimed).analyze
          ((onUnknownExport .types).source "export f\n")).1 = .ok a ∧ a.hasErrors = true ∧
        (unknownExport.perform .untimed (onUnknownExport .types)).1.result = .ok 1 := by
  have text : (unknownExport.readText (.ofText "main.ff")).toOption = some "export f\n" := by
    decide +kernel
  have errors : (((onUnknownExport .types).context .untimed).analyze
      ((onUnknownExport .types).source "export f\n")).1.toOption.any (·.hasErrors) = true := by
    decide +kernel
  have readable : unknownExport.readText (.ofText "main.ff") = .ok "export f\n" := by
    cases read : unknownExport.readText (.ofText "main.ff") with
    | error e => simp [read, Except.toOption] at text
    | ok found => simpa [read, Except.toOption] using text
  refine ⟨readable, ?_⟩
  cases found : (((onUnknownExport .types).context .untimed).analyze
      ((onUnknownExport .types).source "export f\n")).1 with
  | error e => simp [found, Except.toOption] at errors
  | ok a =>
    simp only [found, Except.toOption, Option.any_some] at errors
    exact ⟨a, rfl, errors, (exits_after_errors (by decide) readable found errors).1⟩

/-- The outline of a program with an error is a success. -/
theorem outline_succeeds_unknownExport :
    (((onUnknownExport .outline).context .untimed).analyze
        ((onUnknownExport .outline).source "export f\n")).1.toOption.any (·.hasErrors) = true ∧
      (unknownExport.perform .untimed (onUnknownExport .outline)).1.result.toOption =
        some 0 := by
  decide +kernel

end FileTree

end ConstFun
