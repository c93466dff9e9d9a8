import ConstFun.Proofs.SolverStep
import ConstFun.Wat.Generate
import Mathlib.Data.List.Basic

namespace ConstFun

section Blindness

variable {ε ε' σ α β : Type} {R : σ → σ → Prop}

/-- Results with the same outcome, in states that are related. -/
inductive Agrees (R : σ → σ → Prop) : EStateM.Result ε σ α → EStateM.Result ε σ α → Prop
  | ok {a : α} {s t : σ} (states : R s t) : Agrees R (.ok a s) (.ok a t)
  | error {e : ε} {s t : σ} (states : R s t) : Agrees R (.error e s) (.error e t)

/-- A computation that does not tell related states apart, and leads to related states. -/
def Blind (R : σ → σ → Prop) (m : EStateM ε σ α) : Prop :=
  ∀ ⦃s t : σ⦄, R s t → Agrees R (m s) (m t)

namespace Blind

theorem pure (a : α) : Blind R (pure a : EStateM ε σ α) := fun _ _ states => .ok states

theorem throw (e : ε) : Blind R (throw e : EStateM ε σ α) := fun _ _ states => .error states

theorem bind {m : EStateM ε σ α} {f : α → EStateM ε σ β} (first : Blind R m)
    (rest : ∀ a, Blind R (f a)) : Blind R (m >>= f) := by
  intro s t states
  have agree := first states
  generalize ran : m s = r at agree
  generalize ran' : m t = r' at agree
  cases agree with
  | ok states' =>
    rw [bind_of_ok ran, bind_of_ok ran']
    exact rest _ states'
  | error states' =>
    rw [bind_of_error ran, bind_of_error ran']
    exact .error states'

/-- A state may be read as far as related states look the same. -/
theorem get {f : σ → EStateM ε σ α} (same : ∀ {s t}, R s t → f t = f s)
    (each : ∀ s, Blind R (f s)) : Blind R (get >>= f) := by
  intro s t states
  rw [bind_of_ok (get_run s), bind_of_ok (get_run t), same states]
  exact each s states

theorem modify {f : σ → σ} (kept : ∀ {s t}, R s t → R (f s) (f t)) :
    Blind R (modify f : EStateM ε σ Unit) := fun _ _ states => .ok (kept states)

theorem modifyGet {f : σ → α × σ}
    (kept : ∀ {s t}, R s t → (f t).1 = (f s).1 ∧ R (f s).2 (f t).2) :
    Blind R (modifyGet f : EStateM ε σ α) := by
  intro s t states
  obtain ⟨same, states'⟩ := kept states
  change Agrees R (.ok (f s).1 (f s).2) (.ok (f t).1 (f t).2)
  rw [same]
  exact .ok states'

theorem adaptExcept {m : EStateM ε σ α} (f : ε → ε') (blind : Blind R m) :
    Blind R (EStateM.adaptExcept f m) := by
  intro s t states
  have agree := blind states
  generalize ran : m s = r at agree
  generalize ran' : m t = r' at agree
  cases agree with
  | ok states' =>
    rw [adaptExcept_of_ok ran, adaptExcept_of_ok ran']
    exact .ok states'
  | error states' =>
    rw [adaptExcept_of_error ran, adaptExcept_of_error ran']
    exact .error states'

theorem attempt {m : EStateM ε σ α} (blind : Blind R m) :
    Blind R (Analysis.attempt m : EStateM ε' σ (Except ε α)) := by
  intro s t states
  have agree := blind states
  unfold Analysis.attempt
  generalize m s = r at agree ⊢
  generalize m t = r' at agree ⊢
  cases agree with
  | ok states' => exact .ok states'
  | error states' => exact .ok states'

theorem forM {f : β → EStateM ε σ Unit} (each : ∀ b, Blind R (f b)) (bs : List β) :
    Blind R (bs.forM f) := by
  induction bs with
  | nil => exact pure ()
  | cons b bs ih => exact bind (each b) fun _ => ih

theorem foldlM {f : α → β → EStateM ε σ α} (each : ∀ a b, Blind R (f a b)) (bs : List β) (a : α) :
    Blind R (bs.foldlM f a) := by
  induction bs generalizing a with
  | nil => exact pure a
  | cons b bs ih => exact bind (each a b) fun a => ih a

theorem mapM {f : β → EStateM ε σ α} (each : ∀ b, Blind R (f b)) (bs : List β) :
    Blind R (bs.mapM f) := by
  induction bs with
  | nil => exact pure []
  | cons b bs ih =>
    rw [List.mapM_cons]
    exact bind (each b) fun a => bind ih fun as => pure (a :: as)

end Blind

end Blindness

/-- The events of a journal that settings admit. -/
theorem Event.filter_noteIn (log : LogSettings) (journal : Array Event) (e : Event) :
    (e.noteIn none journal).filter log.admits = e.noteIn (some log) (journal.filter log.admits) :=
  Array.filter_push

namespace Solver

/-- A solver as it would be under settings, of one that keeps every event. -/
def heard (log : LogSettings) (s : Solver) : Solver :=
  { s with journal := s.journal.filter log.admits, settings := some log }

/-- The same state without settings and under them. -/
def Hears (log : LogSettings) (s t : Solver) : Prop := s.settings = none ∧ t = s.heard log

theorem Hears.record {log : LogSettings} {s t : Solver} (hears : s.Hears log t) (e : Event) :
    (s.record e).Hears log (t.record e) := by
  obtain ⟨every, rfl⟩ := hears
  refine ⟨every, ?_⟩
  simp only [Solver.record, heard, every, Event.filter_noteIn]

end Solver

namespace SolverM

variable {log : LogSettings} {α : Type}

theorem blind_get {f : Solver → SolverM α} (same : ∀ s : Solver, f (s.heard log) = f s)
    (each : ∀ s, Blind (Solver.Hears log) (f s)) : Blind (Solver.Hears log) (get >>= f) :=
  .get (fun hears => by rw [hears.2, same]) each

theorem blind_modify {f : Solver → Solver} (kept : ∀ s, (f s).settings = s.settings)
    (same : ∀ s : Solver, f (s.heard log) = (f s).heard log) :
    Blind (Solver.Hears log) (modify f : SolverM Unit) :=
  .modify fun hears => ⟨(kept _).trans hears.1, by rw [hears.2, same]⟩

theorem liftFault_blind (e : Except Fault α) : Blind (Solver.Hears log) (liftFault e) := by
  cases e with
  | ok a => exact .pure a
  | error f => exact .throw _

theorem log_blind (e : Event) : Blind (Solver.Hears log) (SolverM.log e) :=
  .modify fun hears => hears.record e

theorem isVariable_blind (h : Handle) : Blind (Solver.Hears log) (isVariable h) :=
  blind_get (fun _ => rfl) fun _ => liftFault_blind _

theorem kindOf_blind (h : Handle) : Blind (Solver.Hears log) (kindOf h) :=
  blind_get (fun _ => rfl) fun _ => liftFault_blind _

theorem find_blind (h : Handle) : Blind (Solver.Hears log) (find h) := by
  refine .modifyGet ?_
  rintro s _ ⟨every, rfl⟩
  exact ⟨rfl, every, rfl⟩

theorem concrete_blind (k : Kind) : Blind (Solver.Hears log) (concrete k) := by
  refine .modifyGet ?_
  rintro s _ ⟨every, rfl⟩
  exact ⟨rfl, every, rfl⟩

theorem union_blind (child target : Handle) : Blind (Solver.Hears log) (union child target) := by
  refine blind_get (fun _ => rfl) fun s => .bind (liftFault_blind _) fun graph => ?_
  exact blind_modify (fun _ => rfl) fun _ => rfl

theorem compareKinds_blind (c : Constraint) (problem : Kind → Kind → TypeProblem) :
    Blind (Solver.Hears log) (compareKinds c problem) := by
  refine .bind (kindOf_blind _) fun left => .bind (kindOf_blind _) fun right => ?_
  split
  · split
    · exact .throw _
    · exact .pure ()
  · exact .pure ()

theorem constrainEqual_blind (left right : Handle) (origin : Option Span) :
    Blind (Solver.Hears log) (modify (·.constrainEqual left right origin) : SolverM Unit) :=
  blind_modify (fun _ => rfl) fun _ => rfl

theorem constrainSubtype_blind (left right : Handle) (origin : Option Span) (color : Option Int) :
    Blind (Solver.Hears log) (modify (·.constrainSubtype left right origin color) : SolverM Unit) :=
  blind_modify (fun _ => rfl) fun _ => rfl

theorem solveSubtype_blind (c : Constraint) (color : Int) :
    Blind (Solver.Hears log) (solveSubtype c color) := by
  refine .bind (isVariable_blind _) fun leftVariable => ?_
  split
  · refine .bind (find_blind _) fun root => blind_get (fun _ => rfl) fun s => ?_
    split
    · exact constrainEqual_blind _ _ _
    · refine .bind (isVariable_blind _) fun rootVariable => ?_
      split
      · exact blind_modify (fun _ => rfl) fun _ => rfl
      · exact constrainSubtype_blind _ _ _ _
  · refine .bind (isVariable_blind _) fun rightVariable => ?_
    split
    · refine .bind (find_blind _) fun root => .bind (isVariable_blind _) fun rootVariable => ?_
      split
      · exact constrainEqual_blind _ _ _
      · exact constrainSubtype_blind _ _ _ _
    · exact compareKinds_blind _ _

theorem moveBounds_blind (source target : Handle) :
    Blind (Solver.Hears log) (moveBounds source target) := by
  refine blind_get (fun _ => rfl) fun s => ?_
  refine .bind (blind_modify (fun _ => rfl) fun _ => rfl) fun _ => ?_
  split
  · refine .bind (.mapM (fun b => .bind (find_blind _) fun right => .pure _) _) fun moved => ?_
    exact blind_modify (fun _ => rfl) fun _ => rfl
  · exact .pure ()

theorem merge_blind (child target : Handle) : Blind (Solver.Hears log) (merge child target) :=
  .bind (union_blind _ _) fun _ => moveBounds_blind _ _

theorem joinClasses_blind (c : Constraint) : Blind (Solver.Hears log) (joinClasses c) := by
  refine .bind (find_blind _) fun left => .bind (find_blind _) fun right => ?_
  split
  · exact .pure ()
  refine .bind (isVariable_blind _) fun leftOpen => ?_
  split
  · exact merge_blind _ _
  refine .bind (isVariable_blind _) fun rightOpen => ?_
  split
  · exact merge_blind _ _
  · exact constrainEqual_blind _ _ _

theorem solveEqual_blind (c : Constraint) : Blind (Solver.Hears log) (solveEqual c) := by
  refine .bind (isVariable_blind _) fun leftVariable => ?_
  have rest : ∀ rightVariable, Blind (Solver.Hears log)
      (if !leftVariable && !rightVariable then compareKinds c .notEqual else joinClasses c) := by
    intro rightVariable
    split
    · exact compareKinds_blind _ _
    · exact joinClasses_blind _
  dsimp only
  split
  · exact .bind (.pure true) rest
  · exact .bind (isVariable_blind _) rest

theorem step_blind (c : Constraint) : Blind (Solver.Hears log) (step c) := by
  refine .adaptExcept _ (blind_get (fun _ => rfl) fun s => .bind (liftFault_blind _) fun text => ?_)
  refine .bind (log_blind _) fun _ => ?_
  split
  · exact solveSubtype_blind _ _
  · exact solveEqual_blind _

theorem choices_blind (bounds : List PendingBound) : Blind (Solver.Hears log) (choices bounds) := by
  suffices ∀ known, Blind (Solver.Hears log) (choices.go known bounds) from this {}
  induction bounds with
  | nil => exact fun known => .pure _
  | cons b rest ih =>
    refine fun known => .bind (find_blind _) fun root => .bind (kindOf_blind _) fun kind => ?_
    cases kind with
    | some k => exact ih _
    | none => exact .pure _

theorem narrowClass_blind (root : Handle) (bounds : List PendingBound) :
    Blind (Solver.Hears log) (narrowClass root bounds) := by
  refine blind_get (fun _ => rfl) fun s => ?_
  split
  · exact .pure false
  refine .bind (choices_blind bounds) fun known => ?_
  cases known with
  | none => exact .pure false
  | some known =>
    refine .bind (kindOf_blind root) fun kind => ?_
    split
    · split
      · exact .pure false
      · exact .throw _
    · exact .throw _
    · refine .bind (log_blind _) fun _ => .bind (concrete_blind _) fun target => ?_
      exact .bind (constrainEqual_blind _ _ _) fun _ => .pure true
    · exact .pure false

theorem checkUnrepresentable_blind (literal : Handle) (origin : Option Span) :
    Blind (Solver.Hears log) (checkUnrepresentable literal origin) := by
  refine .bind (find_blind _) fun root => .bind (kindOf_blind _) fun kind => ?_
  cases kind with
  | some k => exact .throw _
  | none => exact .pure ()

theorem narrow_blind : Blind (Solver.Hears log) narrow := by
  refine blind_get (fun _ => rfl) fun s => .bind (.forM (fun entry => ?_) _) fun _ => ?_
  · exact checkUnrepresentable_blind _ _
  · refine blind_get (fun _ => rfl) fun s => .foldlM (fun emitted entry => ?_) _ _
    exact .bind (narrowClass_blind _ _) fun _ => .pure _

theorem rounds_blind (narrowing : Bool) (fuel count processed : Nat) :
    Blind (Solver.Hears log) (rounds narrowing fuel count processed) := by
  induction fuel generalizing count processed with
  | zero => exact .pure _
  | succ fuel ih =>
    refine .bind (.modifyGet ?_) fun batch => ?_
    · rintro s _ ⟨every, rfl⟩
      exact ⟨rfl, every, rfl⟩
    split
    · split
      · exact .pure _
      refine .bind narrow_blind fun emitted => ?_
      split
      · exact ih _ _
      · exact .pure _
    · refine .bind (log_blind _) fun _ => .bind (.forM step_blind _) fun _ => ?_
      exact ih _ _

theorem solve_blind (narrowing : Bool) : Blind (Solver.Hears log) (solve narrowing) := by
  refine blind_get (fun _ => rfl) fun s => .bind (rounds_blind _ _ _ _) fun counts => ?_
  exact .bind (log_blind _) fun _ => .pure _

end SolverM

namespace Solver

variable {log : LogSettings} {s t : Solver}

theorem Hears.classify (hears : s.Hears log t) (literal : Handle) (value : LiteralValue)
    (exact : Bool) (origin : Option Span) :
    (s.classify literal value exact origin).2.Hears log
      (t.classify literal value exact origin).2 := by
  unfold Solver.classify
  induction admissibleKinds exact value generalizing s t with
  | nil => exact hears
  | cons k kinds ih =>
    obtain ⟨every, rfl⟩ := hears
    exact ih ⟨every, rfl⟩

theorem Hears.noteIfUnrepresentable (hears : s.Hears log t) (literal : Handle)
    (origin : Option Span) (kinds : List Kind) :
    (s.noteIfUnrepresentable literal origin kinds).Hears log
      (t.noteIfUnrepresentable literal origin kinds) := by
  obtain ⟨every, rfl⟩ := hears
  unfold Solver.noteIfUnrepresentable
  split
  · exact ⟨every, rfl⟩
  · exact ⟨every, rfl⟩

end Solver

namespace Session

variable {ε α : Type} {log : LogSettings}

def heard (log : LogSettings) (s : Session) : Session := { s with toSolver := s.toSolver.heard log }

def Hears (log : LogSettings) (s t : Session) : Prop := s.settings = none ∧ t = s.heard log

theorem Hears.of_solver {s : Session} {solver solver' : Solver}
    (hears : solver.Hears log solver') :
    ({ s with toSolver := solver } : Session).Hears log
      { s.heard log with toSolver := solver' } := by
  obtain ⟨every, rfl⟩ := hears
  exact ⟨every, rfl⟩

theorem blind_get {f : Session → EStateM ε Session α} (same : ∀ s : Session, f (s.heard log) = f s)
    (each : ∀ s, Blind (Hears log) (f s)) : Blind (Hears log) (get >>= f) :=
  .get (fun hears => by rw [hears.2, same]) each

theorem onSolver_blind {m : EStateM ε Solver α} (blind : Blind (Solver.Hears log) m) :
    Blind (Hears log) (onSolver m) := by
  rintro s _ ⟨every, rfl⟩
  have agree := blind (s := s.toSolver) (t := s.toSolver.heard log) ⟨every, rfl⟩
  have same : (s.heard log).toSolver = s.toSolver.heard log := rfl
  unfold onSolver
  rw [same]
  generalize m s.toSolver = r at agree ⊢
  generalize m (s.toSolver.heard log) = r' at agree ⊢
  cases agree with
  | ok states => exact .ok (.of_solver states)
  | error states => exact .error (.of_solver states)

/-- What is known of a handle does not hang on what is heard. -/
theorem reifyKind_heard {h : Handle} {s t : Session} {kind : Option Kind}
    (read : reifyKind h s = .ok kind t) (log : LogSettings) :
    reifyKind h (s.heard log) = .ok kind (t.heard log) := by
  have same : (s.heard log).toSolver.reify h =
      ((s.toSolver.reify h).1, (s.toSolver.reify h).2.heard log) := rfl
  unfold reifyKind at read ⊢
  rw [same]
  dsimp only [Solver.heard] at read ⊢
  split at read
  next =>
    cases read
    rfl
  next => cases read

theorem log_blind (e : Event) : Blind (Hears log) (Analysis.log e) := by
  refine .modify ?_
  rintro s _ ⟨every, rfl⟩
  have hears : s.toSolver.Hears log (s.toSolver.heard log) := ⟨every, rfl⟩
  exact .of_solver (hears.record e)

theorem infer_blind (key : Nat) (l : Literal) : Blind (Hears log) (infer key l) := by
  rintro s _ ⟨every, rfl⟩
  have hears : s.toSolver.newVariable.2.Hears log (s.toSolver.heard log).newVariable.2 :=
    ⟨every, rfl⟩
  have same : (s.heard log).literals = s.literals := rfl
  unfold infer
  rw [same]
  cases s.literals.find? (·.key = key) with
  | some known => exact .ok ⟨every, rfl⟩
  | none =>
    cases literalValue l.text l.isDecimal with
    | error e => exact .error (.of_solver hears)
    | ok value =>
      have offered := hears.classify s.toSolver.newVariable.1 value s.options.exactUnsigned l.span
      have noted := offered.noteIfUnrepresentable s.toSolver.newVariable.1 l.span
        (admissibleKinds s.options.exactUnsigned value)
      exact .ok (.of_solver
        (s := { s with literals := s.literals ++ [⟨key, l, s.toSolver.newVariable.1⟩] })
        (noted.record _))

theorem solve_blind : Blind (Hears log) solve := by
  refine blind_get (fun _ => rfl) fun s => ?_
  split
  · exact .throw _
  refine .bind (.modify ?_) fun _ => blind_get (fun _ => rfl) fun s => ?_
  · rintro s _ ⟨every, rfl⟩
    exact ⟨every, rfl⟩
  · exact onSolver_blind (SolverM.solve_blind _)

theorem annotate_blind (h : Handle) (t : TypeName) :
    Blind (Hears log) (modify (·.annotate h t) : EStateM NumberError Session Unit) := by
  refine .modify ?_
  rintro s _ ⟨every, rfl⟩
  unfold annotate
  split
  · exact ⟨every, rfl⟩
  · exact ⟨every, rfl⟩

end Session

section Reading

variable {log : LogSettings}

theorem Literal.typed_blind (l : Literal) : Blind (Session.Hears log) l.typed :=
  Session.blind_get (fun _ => rfl) fun _ => .bind (Session.infer_blind _ l) fun _ => .pure _

theorem FunctionDecl.typed_blind (f : FunctionDecl) : Blind (Session.Hears log) f.typed := by
  unfold FunctionDecl.typed
  split
  · exact .pure f
  · refine .bind (Literal.typed_blind _) fun l => ?_
    dsimp only
    split
    · exact .bind (Session.annotate_blind _ _) fun _ => .pure _
    · exact .bind (.pure ()) fun _ => .pure _

theorem Decl.typed_blind (d : Decl) : Blind (Session.Hears log) d.typed := by
  cases d with
  | function f =>
    have blind : Blind (Session.Hears log) (f.typed >>= fun g => pure (Decl.function g)) :=
      .bind f.typed_blind fun _ => .pure _
    rwa [bind_pure_comp] at blind
  | exportOf e => exact .pure _

theorem Program.read_blind (name : String) (filename : Option String) (tokens : TokenStream) :
    Blind (Session.Hears log) (Program.read name filename tokens) := by
  unfold Program.read
  refine .bind (.adaptExcept _ (.mapM Decl.typed_blind _)) fun decls => ?_
  split
  · exact .throw _
  · exact .throw _
  · split
    · exact .throw _
    · exact .pure _

end Reading

namespace Analysis

variable {log : LogSettings}

theorem readProgram_blind (source : Source) : Blind (Session.Hears log) (readProgram source) := by
  refine .bind (Session.log_blind _) fun _ => ?_
  split
  · exact .pure _
  refine .bind (Session.log_blind _) fun _ => .bind (.attempt (Program.read_blind _ _ _)) ?_
  intro outcome
  split
  · exact .throw _
  · exact .throw _
  · exact .pure _
  · exact .bind (Session.log_blind _) fun _ => .pure _

theorem resolve_blind (source : Source) : Blind (Session.Hears log) (resolve source) := by
  refine .bind (Session.log_blind _) fun _ => .bind (Session.log_blind _) fun _ => ?_
  refine .bind (readProgram_blind source) fun outcome => ?_
  split
  · exact .pure _
  · exact .bind (Session.log_blind _) fun _ => .pure _

theorem reviewLiteral_blind (filename : Option String) (a : Analysis) (l : TypedLiteral) :
    Blind (Session.Hears log) (reviewLiteral filename a l) := by
  refine Session.blind_get (fun _ => rfl) fun s => ?_
  split
  · exact .throw _
  · exact .pure _
  · exact .bind (Session.log_blind _) fun _ => .pure a

theorem infer_blind (filename : String) (a : Analysis) :
    Blind (Session.Hears log) (infer filename a) := by
  unfold infer
  split
  · exact .pure a
  refine .bind (Session.log_blind _) fun _ => .bind (Session.log_blind _) fun _ => ?_
  refine .bind (.attempt Session.solve_blind) fun outcome => ?_
  split
  · exact .pure _
  · exact .throw _
  refine Session.blind_get (fun _ => rfl) fun s => .bind (Session.log_blind _) fun _ => ?_
  refine Session.blind_get (fun _ => rfl) fun s => ?_
  refine .bind (.foldlM (fun a l => reviewLiteral_blind _ a l) _ _) fun a => ?_
  exact .bind (Session.log_blind _) fun _ => .pure a

/-- An analysis as it would be under settings, of one that keeps every event. -/
def heard (log : LogSettings) (a : Analysis) : Analysis :=
  { a with session := a.session.map (·.heard log) }

end Analysis

/-- An analysis under settings is the one that keeps every event, less the events that are not
admitted. -/
theorem Context.analyze_eq (c : Context) (source : Source) :
    c.analyze source =
      ((ConstFun.analyze c.typing source).1.map (·.heard c.log),
        (ConstFun.analyze c.typing source).2.filter c.log.admits) := by
  have blind : Blind (Session.Hears c.log)
      (Analysis.resolve source >>= Analysis.infer source.filename) :=
    .bind (Analysis.resolve_blind source) (Analysis.infer_blind source.filename)
  have agree := blind (s := Session.new c.typing)
    (t := { Session.new c.typing with settings := some c.log }) ⟨rfl, rfl⟩
  unfold Context.analyze ConstFun.analyze Analysis.conclude
  generalize (Analysis.resolve source >>= Analysis.infer source.filename) (Session.new c.typing) = r
    at agree ⊢
  generalize (Analysis.resolve source >>= Analysis.infer source.filename)
    { Session.new c.typing with settings := some c.log } = r' at agree ⊢
  cases agree with
  | ok states =>
    obtain ⟨_, rfl⟩ := states
    exact Prod.ext rfl Array.toList_filter
  | error states =>
    obtain ⟨_, rfl⟩ := states
    exact Prod.ext rfl Array.toList_filter

theorem Context.exists_analysis {c : Context} {source : Source} {a : Analysis}
    (analyzed : (c.analyze source).1 = .ok a) :
    ∃ b, (ConstFun.analyze c.typing source).1 = .ok b ∧ a = b.heard c.log := by
  rw [analyze_eq] at analyzed
  cases plain : (ConstFun.analyze c.typing source).1 with
  | error e =>
    rw [plain] at analyzed
    cases analyzed
  | ok b =>
    rw [plain] at analyzed
    exact ⟨b, rfl, (Except.ok.inj analyzed).symm⟩

theorem Context.analyze_of_ok {source : Source} {b : Analysis} (c : Context)
    (analyzed : (ConstFun.analyze c.typing source).1 = .ok b) :
    (c.analyze source).1 = .ok (b.heard c.log) := by
  rw [analyze_eq, analyzed]
  rfl

namespace Generator

theorem exists_of_conclude {step : GeneratorM String} {g : Generator} {text : String}
    (concluded : (conclude step g).1 = .ok text) : ∃ g', step g = .ok text g' := by
  unfold conclude at concluded
  split at concluded
  next text' g' ran =>
    cases concluded
    exact ⟨g', ran⟩
  next => cases concluded

variable {log : LogSettings} {α : Type}

/-- A generator as it would be under settings, of one that keeps every event. -/
def heard (log : LogSettings) (g : Generator) : Generator :=
  { g with journal := g.journal.filter log.admits, settings := some log }

def Hears (log : LogSettings) (g h : Generator) : Prop := g.settings = none ∧ h = g.heard log

theorem log_blind (e : Event) : Blind (Hears log) (Generator.log e) := by
  refine .modify ?_
  rintro g _ ⟨every, rfl⟩
  refine ⟨every, ?_⟩
  simp only [heard, every, Event.filter_noteIn]

theorem emitting_blind (m : EStateM EmitError Emitter Unit) : Blind (Hears log) (emitting m) := by
  rintro g _ ⟨every, rfl⟩
  have same : (g.heard log).emitter = g.emitter := rfl
  unfold emitting
  rw [same]
  cases m g.emitter with
  | ok _ emitter => exact .ok ⟨every, rfl⟩
  | error e emitter => exact .error ⟨every, rfl⟩

theorem liftFault_blind (e : Except Fault α) : Blind (Hears log) (liftFault e) := by
  cases e with
  | ok a => exact .pure a
  | error f => exact .throw _

theorem literalKind_blind (s : Session) (filename : Option String) (l : Literal) :
    Blind (Hears log) (literalKind s filename l) := by
  unfold literalKind
  split
  · exact .throw _
  refine .bind (liftFault_blind _) fun kind => ?_
  cases kind with
  | none => exact .throw _
  | some k => exact .pure k

theorem lowerKind_blind (k : Kind) (span : Option Span) : Blind (Hears log) (lowerKind k span) := by
  unfold lowerKind
  split
  · exact .pure _
  · exact .throw _

theorem checkedValue_blind (l : Literal) (k : Kind) : Blind (Hears log) (checkedValue l k) := by
  unfold checkedValue
  split
  · exact .throw _
  · split
    · exact .pure _
    · exact .throw _

theorem function_blind (a : Analysis) (s : Session) (filename : Option String) (f : FunctionDecl) :
    Blind (Hears log) (function a s filename f) := by
  unfold function
  split
  · exact .throw _
  refine .bind (literalKind_blind _ _ _) fun kind => .bind (liftFault_blind _) fun declared => ?_
  split
  · exact .throw _
  refine .bind (lowerKind_blind _ _) fun type => .bind (checkedValue_blind _ _) fun value => ?_
  exact .bind (log_blind _) fun _ => emitting_blind _

theorem program_blind (a : Analysis) (s : Session) (p : Program) :
    Blind (Hears log) (program a s p) := by
  refine .bind (emitting_blind _) fun _ => .bind (.forM (function_blind a s _) _) fun _ => ?_
  refine .bind (.forM (fun entry => ?_) _) fun _ => .bind (emitting_blind _) fun _ => .get ?_ ?_
  · exact .bind (log_blind _) fun _ => emitting_blind _
  · rintro g _ ⟨_, rfl⟩
    rfl
  · exact fun g => .pure _

theorem function_heard (a : Analysis) (s : Session) (filename : Option String) (f : FunctionDecl) :
    function (a.heard log) (s.heard log) filename f = function a s filename f := by
  have declared : (a.heard log).returnKind f = a.returnKind f := by
    unfold Analysis.returnKind Analysis.heard
    cases f.returnType with
    | some t => rfl
    | none => cases a.session <;> cases f.body.type <;> rfl
  unfold function
  rw [declared]
  rfl

theorem program_heard (a : Analysis) (s : Session) (p : Program) :
    program (a.heard log) (s.heard log) p = program a s p := by
  unfold program
  rw [funext (function_heard a s p.filename)]
  rfl

end Generator

namespace Analysis

variable {log : LogSettings}

theorem generate_blind (a : Analysis) : Blind (Generator.Hears log) a.generate := by
  refine .bind (Generator.log_blind _) fun _ => ?_
  split
  · exact .throw _
  split
  · exact .throw _
  split
  · exact .throw _
  · exact Generator.program_blind _ _ _

theorem generate_heard (a : Analysis) : (a.heard log).generate = a.generate := by
  have solved : (a.heard log).session.filter (·.solved) =
      (a.session.filter (·.solved)).map (·.heard log) := Option.filter_map
  unfold generate
  refine congrArg (Generator.log _ >>= ·) (funext fun _ => ?_)
  rw [solved]
  cases a.session.filter (·.solved) with
  | none => rfl
  | some s =>
    simp only [Option.map_some, Generator.program_heard]
    rfl

/-- What is left of an analysis apart from the logging. -/
def unlogged (a : Analysis) : Analysis :=
  { a with session := a.session.map fun s => { s with journal := #[], settings := none } }

theorem unlogged_heard (log : LogSettings) (a : Analysis) :
    (a.heard log).unlogged = a.unlogged := by
  simp only [unlogged, heard, Option.map_map]
  rfl

end Analysis

/-- Under settings every message is one line. -/
theorem renderLog_eq_join (clock : Nat → String) (log : LogSettings) (events : List Event) :
    renderLog clock (some log) events =
      String.join ((writtenEvents (some log) events).mapIdx fun n e =>
        log.heading (clock n) e ++ e.text ++ "\n") := by
  unfold renderLog
  dsimp only
  rw [List.mapIdx_eq_zipIdx_map, List.mapIdx_eq_zipIdx_map, ← List.flatMap_def, List.map_flatMap,
    List.map_eq_flatMap]
  rfl

namespace Context

/-- Generating under settings goes as without them, less the events that are not admitted. -/
theorem generate_eq (c : Context) (a : Analysis) :
    c.generate (a.heard c.log) =
      ((Generator.conclude a.generate {}).1,
        (Generator.conclude a.generate {}).2.filter c.log.admits) := by
  have agree := a.generate_blind (s := {}) (t := { settings := some c.log }) ⟨rfl, rfl⟩
  unfold generate Generator.conclude
  rw [Analysis.generate_heard]
  generalize a.generate {} = r at agree ⊢
  generalize a.generate { settings := some c.log } = r' at agree ⊢
  cases agree with
  | ok states =>
    obtain ⟨_, rfl⟩ := states
    exact Prod.ext rfl Array.toList_filter
  | error states =>
    obtain ⟨_, rfl⟩ := states
    exact Prod.ext rfl Array.toList_filter

/-- Analyses a source, generates its text, and gives what was logged meanwhile. -/
def compile (c : Context) (source : Source) :
    Except AnalysisFailure (Analysis × Except GenerateFailure String) × List Event :=
  match c.analyze source with
  | (.error e, events) => (.error e, events)
  | (.ok a, events) => (.ok (a, (c.generate a).1), events ++ (c.generate a).2)

/-- What compiling a source finds, apart from the logging. -/
def findings (c : Context) (source : Source) :
    Except AnalysisFailure (Analysis × Except GenerateFailure String) :=
  (c.compile source).1.map fun (a, text) => (a.unlogged, text)

/-- The messages that compiling a source writes. -/
def messages (c : Context) (source : Source) : List Event :=
  writtenEvents (some c.log) (c.compile source).2

/-- The text that compiling a source writes, with the time of each message. -/
def transcript (c : Context) (clock : Nat → String) (source : Source) : String :=
  renderLog clock (some c.log) (c.compile source).2

/-- Behind all settings stands one list of events and one outcome. -/
theorem exists_events (typing : TypingOptions) (source : Source) :
    ∃ found, ∃ events : List Event, ∀ log : LogSettings,
      findings ⟨typing, log⟩ source = found ∧
        (compile ⟨typing, log⟩ source).2 = events.filter log.admits := by
  cases analyzed : (ConstFun.analyze typing source).1 with
  | error e =>
    refine ⟨.error e, (ConstFun.analyze typing source).2, fun log => ?_⟩
    have run : compile ⟨typing, log⟩ source =
        (.error e, (ConstFun.analyze typing source).2.filter log.admits) := by
      unfold compile
      rw [analyze_eq, analyzed]
      rfl
    exact ⟨by rw [findings, run]; rfl, by rw [run]⟩
  | ok a =>
    refine ⟨.ok (a.unlogged, (Generator.conclude a.generate {}).1),
      (ConstFun.analyze typing source).2 ++ (Generator.conclude a.generate {}).2, fun log => ?_⟩
    have run : compile ⟨typing, log⟩ source =
        (.ok (a.heard log, (Generator.conclude a.generate {}).1),
          ((ConstFun.analyze typing source).2 ++
            (Generator.conclude a.generate {}).2).filter log.admits) := by
      have generated := generate_eq ⟨typing, log⟩ a
      unfold compile
      rw [analyze_eq, analyzed, List.filter_append]
      simp only [Except.map, generated]
    refine ⟨?_, by rw [run]⟩
    rw [findings, run, ← a.unlogged_heard log]
    rfl

/-- Settings are not observed by what is compiled: in contexts that differ in them a source has
the same diagnostics, names, constraints, kinds and text, or the same failure. Each message that is
written is one line, headed by the time that the clock tells for it, and a lower level writes some
of the messages that a higher level writes, in the same order. -/
theorem settings_unobserved (typing : TypingOptions) (source : Source) :
    (∀ log log' : LogSettings,
      findings ⟨typing, log⟩ source = findings ⟨typing, log'⟩ source) ∧
    (∀ (log : LogSettings) (clock : Nat → String), transcript ⟨typing, log⟩ clock source =
      String.join ((messages ⟨typing, log⟩ source).mapIdx fun n e =>
        log.heading (clock n) e ++ e.text ++ "\n")) ∧
    ∀ (log : LogSettings) (lower higher : LogLevel), lower.rank ≤ higher.rank →
      (messages ⟨typing, { log with level := lower }⟩ source).Sublist
        (messages ⟨typing, { log with level := higher }⟩ source) := by
  obtain ⟨found, events, each⟩ := exists_events typing source
  refine ⟨fun log log' => (each log).1.trans (each log').1.symm,
    fun log clock => renderLog_eq_join clock log _, ?_⟩
  intro log lower higher below
  have admitted : ∀ e, LogSettings.admits { log with level := lower } e = true →
      LogSettings.admits { log with level := higher } e = true := by
    intro e admits
    simp only [LogSettings.admits, Bool.and_eq_true, decide_eq_true_eq] at admits ⊢
    exact ⟨admits.1, admits.2.trans below⟩
  have heard : ∀ log : LogSettings, messages ⟨typing, log⟩ source = events.filter log.admits := by
    intro log
    simp only [messages, writtenEvents, (each log).2, List.filter_filter, Option.all_some,
      Bool.and_self]
  rw [heard, heard]
  exact List.monotone_filter_right events admitted

/-- A literal of which every kind is left. -/
def loneLiteral : Source := { text := "function f 1" }

theorem settings_unobserved_loneLiteral :
    LogLevel.info.rank ≤ LogLevel.debug.rank ∧
      (messages ⟨{}, { level := .info }⟩ loneLiteral).map (·.text) =
        ["Starting analysis for '<input>'", "Parsing '<input>'", "Resolving function names...",
          "Solving type constraints...", "Analysis complete: 1 total diagnostic(s), 0 error(s)",
          "Generating WebAssembly text..."] ∧
      (messages ⟨{}, { level := .debug }⟩ loneLiteral).length = 13 ∧
      findings ⟨{}, { level := .silent }⟩ loneLiteral =
        findings ⟨{}, { level := .debug, trace := true }⟩ loneLiteral ∧
      (messages ⟨{}, { level := .info }⟩ loneLiteral).Sublist
        (messages ⟨{}, { level := .debug }⟩ loneLiteral) := by
  have below : LogLevel.info.rank ≤ LogLevel.debug.rank := by decide
  have told := settings_unobserved {} loneLiteral
  exact ⟨below, by decide +kernel, by decide +kernel, told.1 _ _, told.2.2 {} .info .debug below⟩

end Context

end ConstFun
