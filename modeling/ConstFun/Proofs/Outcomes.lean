import ConstFun.Proofs.Acceptance

namespace ConstFun

/-- The text lexes, and a body of it is read from an overlong number. -/
def Source.Overlong (source : Source) : Prop :=
  ∃ tokens, tokenize source.text = .ok tokens ∧ ReadsOverlong tokens

/-- What is reported about the types of a program: one body that does not fit its return type, or,
if all fit, the bodies without a kind. -/
def Program.TypingReport (options : TypingOptions) (p : Program) (ds : List Diagnostic) : Prop :=
  (options.narrowing = true ∧ ∃ f ∈ p.functions, ∃ k, f.Unfit options.exactUnsigned k ∧
      ds = [.atSpan .error (.typing (.unfit k)) p.filename f.body.span]) ∨
    (options.narrowing = true → ∀ f ∈ p.functions, ∀ k, ¬f.Unfit options.exactUnsigned k) ∧
      ds = p.functions.filterMap (·.openWarning? options p.filename)

/-- What an analysis reports about a source: a problem that the text or its grammar has, or the
program with the problems of its names and types. -/
inductive Analysis.Reports (options : TypingOptions) (source : Source) (a : Analysis) : Prop
  | lexical {e : LexError} (failed : tokenize source.text = .error e) (program : a.program = none)
      (diagnostics : a.diagnostics = [lexicalDiagnostic source.filename e])
  | grammatical {tokens : List Token} {e : ParseError} (lexed : tokenize source.text = .ok tokens)
      (refused : (Parser.items { rest := tokens }).2 = .error (.rejected e))
      (program : a.program = none)
      (diagnostics : a.diagnostics =
        [.atToken .error (.grammar e) (some source.filename) (some e.token)])
  | read {tokens : List Token} {ds : List Decl} {rest : TokenStream} {p : Program}
      {types : List Diagnostic} (lexed : tokenize source.text = .ok tokens)
      (parsed : Parser.items { rest := tokens } = (ds, .ok rest)) (program : a.program = some p)
      (name : p.name = source.moduleName) (file : p.filename = some source.filename)
      (decls : p.decls.map Decl.untyped = ds) (typing : p.TypingReport options types)
      (diagnostics : a.diagnostics = (Names.ofProgram p).diagnostics ++ types)

theorem Analysis.Reports.heard {options : TypingOptions} {source : Source} {a : Analysis}
    (reports : a.Reports options source) (log : LogSettings) :
    (a.heard log).Reports options source := by
  cases reports with
  | lexical failed program diagnostics => exact .lexical failed program diagnostics
  | grammatical lexed refused program diagnostics =>
    exact .grammatical lexed refused program diagnostics
  | read lexed parsed program name file decls typing diagnostics =>
    exact .read lexed parsed program name file decls typing diagnostics

/-- A text that is no number ends the reading of a program, before its problem of grammar. -/
theorem Program.read_of_number {tokens : TokenStream} {s t : Session} {e : NumberError}
    (failed : (Parser.items tokens).1.mapM Decl.typed s = .error e t) (name : String)
    (filename : Option String) : Program.read name filename tokens s = .error (.number e) t := by
  unfold Program.read
  exact bind_of_error (adaptExcept_of_error failed)

theorem Program.read_of_refused {tokens : TokenStream} {s t : Session} {ds : List Decl}
    {e : ParseFailure} (refused : (Parser.items tokens).2 = .error e)
    (typed : (Parser.items tokens).1.mapM Decl.typed s = .ok ds t) (name : String)
    (filename : Option String) : Program.read name filename tokens s = .error (.grammar e) t := by
  unfold Program.read
  rcases parsed : Parser.items tokens with ⟨read, outcome⟩
  rw [parsed] at refused typed
  dsimp only at refused
  subst refused
  exact bind_of_ok (adaptExcept_of_ok typed)

/-- A problem of grammar is one of the items. -/
theorem Program.refused_of_read {name : String} {filename : Option String} {tokens : TokenStream}
    {s t : Session} {e : ParseError}
    (failed : Program.read name filename tokens s = .error (.grammar (.rejected e)) t) :
    (Parser.items tokens).2 = .error (.rejected e) := by
  cases typed : (Parser.items tokens).1.mapM Decl.typed s with
  | error number u => cases (Program.read_of_number typed name filename).symm.trans failed
  | ok ds u =>
    cases outcome : (Parser.items tokens).2 with
    | error e' =>
      cases (Program.read_of_refused outcome typed name filename).symm.trans failed
      rfl
    | ok rest =>
      unfold Program.read at failed
      have parsed : Parser.items tokens = ((Parser.items tokens).1, .ok rest) :=
        Prod.ext rfl outcome
      rw [parsed] at failed
      dsimp only at failed
      rw [bind_of_ok (adaptExcept_of_ok typed)] at failed
      cases head : tokens.rest.head? with
      | none =>
        rw [head] at failed
        cases failed
      | some start =>
        rw [head] at failed
        dsimp only at failed
        cases last : rest.previous <|> rest.rest.head? <;>
          simp only [Parser.spanFrom, last] at failed <;> cases failed

namespace Analysis

variable {source : Source} {s : Session}

/-- An analysis opens a session and reads the program in it; a source without a program has one
problem, and what ends the reading ends the analysis. -/
theorem analyze_opens (options : TypingOptions) (source : Source) :
    ∃ u : Session, u.Declared [] ∧
      (∀ d t, readProgram source u = .ok (.error d) t →
        ∃ a, (analyze options source).1 = .ok a ∧ a.program = none ∧ a.diagnostics = [d]) ∧
      ∀ e t, readProgram source u = .error e t → (analyze options source).1 = .error e := by
  unfold analyze conclude resolve
  rw [bind_assoc, bind_of_ok (log_run _ _), bind_assoc, bind_of_ok (log_run _ _), bind_assoc]
  generalize recorded : ((Session.new options).record _).record _ = u
  refine ⟨u, recorded ▸ ((Session.Declared.new options).record _).record _, ?_, ?_⟩
  · intro d t read
    rw [bind_of_ok read]
    exact ⟨_, rfl, rfl, rfl⟩
  · intro e t failed
    rw [bind_of_error failed]

/-- A source that lexes and parses is reported on by its names and types. -/
theorem reports_of_parses {ds : List Decl} (parses : source.Parses ds) (options : TypingOptions) :
    ∃ a, (analyze options source).1 = .ok a ∧ a.Reports options source := by
  obtain ⟨tokens, rest, lexed, parsed⟩ := parses.parsed
  obtain ⟨p, s, resolved, rfl, name, file, same, declared⟩ := resolve_reads parses options
  obtain ⟨a, t, inferred, program, _, _, outcome⟩ :=
    infer_run (a := ofProgram p) rfl file declared (parses.placed same)
  refine ⟨{ a with session := some t }, ?_, ?_⟩
  · unfold analyze conclude
    rw [bind_of_ok resolved, inferred]
  rcases outcome with ⟨on, f, hf, k, unfit, reported⟩ | ⟨fits, reported, _⟩
  · refine .read lexed parsed program name file same ?_ reported
    exact .inl ⟨on, f, hf, k, unfit, by rw [file]⟩
  · refine .read lexed parsed program name file same ?_ reported
    exact .inr ⟨fits, by rw [file]⟩

/-- What is said of a source that has no program: its problem as a text, or one of its grammar. -/
theorem problem_of_readProgram {d : Diagnostic} {t : Session}
    (read : readProgram source s = .ok (.error d) t) :
    (∃ e, tokenize source.text = .error e ∧ d = lexicalDiagnostic source.filename e) ∨
      ∃ tokens e, tokenize source.text = .ok tokens ∧
        (Parser.items { rest := tokens }).2 = .error (.rejected e) ∧
        d = .atToken .error (.grammar e) (some source.filename) (some e.token) := by
  unfold readProgram at read
  rw [bind_of_ok (log_run _ _)] at read
  cases lexed : tokenize source.text with
  | error e =>
    rw [lexed] at read
    cases read
    exact .inl ⟨e, rfl, rfl⟩
  | ok tokens =>
    rw [lexed] at read
    dsimp only at read
    rw [bind_of_ok (log_run _ _)] at read
    generalize (s.record _).record _ = u at read
    cases ran : Program.read source.moduleName (some source.filename) { rest := tokens } u with
    | ok result v =>
      rw [bind_of_ok (attempt_of_ok ran)] at read
      cases read
    | error e v =>
      rw [bind_of_ok (attempt_of_error ran)] at read
      cases e with
      | number e => cases read
      | grammar e =>
        cases e with
        | exhausted => cases read
        | rejected e =>
          cases read
          exact .inr ⟨tokens, e, rfl, Program.refused_of_read ran, rfl⟩

theorem reports_of_analyze {options : TypingOptions} {a : Analysis}
    (analyzed : (analyze options source).1 = .ok a) : a.Reports options source := by
  obtain ⟨u, opened, problem, failure⟩ := analyze_opens options source
  cases read : readProgram source u with
  | error e t =>
    rw [failure e t read] at analyzed
    cases analyzed
  | ok outcome t =>
    cases outcome with
    | ok p =>
      obtain ⟨ds, parses⟩ := parses_of_readProgram opened read
      obtain ⟨b, analyzed', reports⟩ := reports_of_parses parses options
      obtain rfl : b = a := Except.ok.inj (analyzed'.symm.trans analyzed)
      exact reports
    | error d =>
      obtain ⟨b, analyzed', program, diagnostics⟩ := problem d t read
      obtain rfl : b = a := Except.ok.inj (analyzed'.symm.trans analyzed)
      rcases problem_of_readProgram read with ⟨e, failed, rfl⟩ | ⟨tokens, e, lexed, refused, rfl⟩
      · exact .lexical failed program diagnostics
      · exact .grammatical lexed refused program diagnostics

end Analysis

end ConstFun
