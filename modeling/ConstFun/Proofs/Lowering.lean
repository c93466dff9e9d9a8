import ConstFun.Proofs.Analyses
import ConstFun.Proofs.Constants
import ConstFun.Wat.Generate
import Mathlib.Data.List.Forall2

namespace ConstFun

open TypeGraph

/-- What is written of a function. -/
structure Constant where
  name : String
  type : ValueType
  operand : String
  source : String
  deriving DecidableEq, Repr

def indentation (level : Nat) : String := String.ofList (List.replicate (2 * level) ' ')

/-- The lines of a function that returns the constant. The source text stands above it where the
operand reads differently. -/
def Constant.lines (level : Nat) (c : Constant) : List String :=
  (indentation level ++ s!"(func {mangle c.name} (result {c.type.name})") ::
    (if c.operand = c.source then [] else [indentation (level + 1) ++ s!";; {c.source}"]) ++
    [indentation (level + 1) ++ c.type.constant c.operand, indentation level ++ ")"]

def exportLine (level : Nat) (entry : String × String) : String :=
  indentation level ++ s!"(export \"{entry.1}\" (func {mangle entry.2}))"

/-- The lines of a module: its functions in order, then its exports. -/
def moduleLines (level : Nat) (name : String) (cs : List Constant)
    (exports : List (String × String)) : List String :=
  (indentation level ++ s!"(module {mangle name}") :: cs.flatMap (·.lines (level + 1)) ++
    exports.map (exportLine (level + 1)) ++ [indentation level ++ ")"]

theorem ValueType.ofName?_name (t : ValueType) : ofName? t.name = some t := by
  cases t <;> decide

namespace Emitter

def append (e : Emitter) (lines : List String) : Emitter :=
  { e with lines := e.lines ++ lines.toArray }

@[simp] theorem append_level (e : Emitter) (lines : List String) :
    (e.append lines).level = e.level := rfl

@[simp] theorem append_nil (e : Emitter) : e.append [] = e := by simp [append]

@[simp] theorem append_append (e : Emitter) (lines more : List String) :
    (e.append lines).append more = e.append (lines ++ more) := by simp [append]

theorem emit_eq (e : Emitter) {line : String} (text : line ≠ "") :
    e.emit line = e.append [indentation e.level ++ line] := by
  simp [emit, append, text, indentation]

@[simp] theorem indent_level (e : Emitter) : e.indent.level = e.level + 1 := rfl

@[simp] theorem indent_append (e : Emitter) (lines : List String) :
    e.indent.append lines = (e.append lines).indent := rfl

theorem close_run (e : Emitter) :
    close e.indent = .ok () (e.append [indentation e.level ++ ")"]) := by
  unfold close
  rw [bind_of_ok (show dedent e.indent = .ok () e from rfl), modify_run, emit_eq _ (by decide)]

theorem emitConstant_eq (e : Emitter) (c : Constant) :
    e.emitConstant c.type c.operand (some c.source) = e.append
      ((if c.operand = c.source then [] else [indentation e.level ++ s!";; {c.source}"]) ++
        [indentation e.level ++ c.type.constant c.operand]) := by
  have constant : c.type.constant c.operand ≠ "" := by simp [ValueType.constant, toString]
  have comment : s!";; {c.source}" ≠ "" := by simp [toString]
  unfold emitConstant Emitter.comment
  dsimp only
  split
  next => rw [emit_eq _ constant, List.nil_append]
  next => rw [emit_eq _ comment, emit_eq _ constant, append_append, append_level]

theorem function_run {c : Constant} {value : LiteralValue}
    (operand : c.type.operand value = .ok c.operand) (e : Emitter) :
    function c.name c.type.name value (some c.source) e =
      .ok () (e.append (c.lines e.level)) := by
  have head : s!"(func {mangle c.name} (result {c.type.name})" ≠ "" := by simp [toString]
  unfold function
  rw [bind_of_ok (modify_run _ _)]
  simp only [typedOperand, ValueType.ofName?_name, operand]
  rw [bind_of_ok (modify_run _ _), emit_eq _ head, emitConstant_eq]
  rw [indent_append, close_run]
  simp [Constant.lines]

theorem exportFunction_eq (e : Emitter) (entry : String × String) :
    e.exportFunction entry.1 entry.2 = e.append [exportLine e.level entry] := by
  have line : s!"(export \"{entry.1}\" (func {mangle entry.2}))" ≠ "" := by simp [toString]
  exact emit_eq e line

end Emitter

/-- Why a function whose body has a kind, or none, cannot be lowered. -/
def FunctionDecl.rejection? (kind : Option Kind) (f : FunctionDecl) : Option LoweringProblem :=
  match f.body, kind with
  | .other _, _ => none
  | .literal l, none => some (.unresolved l.text)
  | .literal l, some k =>
    if k.bits = 8 ∨ k.bits = 16 then some (.unsupported k)
    else
      match literalValue l.text l.isDecimal with
      | .ok value => if k.admits true value then none else some (.unfit l.text k)
      | .error _ => none

/-- The constant that a function is lowered to. -/
def FunctionDecl.constant? (kind : Option Kind) (f : FunctionDecl) : Option Constant :=
  match f.body, kind with
  | .literal l, some k =>
    match k.valueType?, literalValue l.text l.isDecimal with
    | some type, .ok value =>
      if k.admits true value then
        (type.operand value).toOption.map fun operand => ⟨f.name, type, operand, l.text⟩
      else none
    | _, _ => none
  | _, _ => none

namespace FunctionDecl

variable {f : FunctionDecl} {options : TypingOptions}

theorem resolvedKind?_of_declared {k : Kind} (declared : f.declaredKind? = some k) :
    f.resolvedKind? options = some k := by
  unfold resolvedKind? bodyKind?
  rw [declared]
  split <;> rfl

section Valued

variable {l : Literal} {value : LiteralValue} (body : f.body = .literal l)
  (read : literalValue l.text l.isDecimal = .ok value)

include body read

theorem kinds_of_value (exact : Bool) : f.kinds exact = admissibleKinds exact value := by
  simp [kinds, body, Literal.kinds, read]

theorem rejection?_of_value (kind : Option Kind) :
    f.rejection? kind = kind.elim (some (.unresolved l.text)) fun k =>
      if k.bits = 8 ∨ k.bits = 16 then some (.unsupported k)
      else if k.admits true value then none else some (.unfit l.text k) := by
  cases kind <;> simp [rejection?, body, read]

theorem rejection?_eq_none_iff (kind : Option Kind) :
    f.rejection? kind = none ↔ ∃ c, f.constant? kind = some c := by
  cases kind with
  | none => simp [rejection?, constant?, body]
  | some k =>
    by_cases small : k.bits = 8 ∨ k.bits = 16
    · simp [rejection?, constant?, body, small, Kind.valueType?_eq_none_iff.mpr small]
    · obtain ⟨type, lowered⟩ := Kind.exists_valueType small
      by_cases fits : k.admits true value = true
      · obtain ⟨operand, written⟩ := ValueType.operand_of_admits lowered fits
        simp [rejection?, constant?, body, small, lowered, read, fits, written, Except.toOption]
      · simp [rejection?, constant?, body, small, lowered, read, fits]

theorem code_of_rejection? {kind : Option Kind} {problem : LoweringProblem}
    (rejected : f.rejection? kind = some problem) :
    problem.code = kind.elim ⟨.gen, 10⟩ fun k =>
      if k.bits = 8 ∨ k.bits = 16 then ⟨.gen, 20⟩ else ⟨.gen, 40⟩ := by
  rw [rejection?_of_value body read] at rejected
  cases kind with
  | none =>
    cases rejected
    rfl
  | some k =>
    dsimp only [Option.elim] at rejected ⊢
    split at rejected
    next small =>
      cases rejected
      rw [if_pos small, LoweringProblem.code]
    next wide =>
      split at rejected
      next => cases rejected
      next =>
        cases rejected
        rw [if_neg wide, LoweringProblem.code]

theorem outside_of_unfit {kind : Option Kind} {text : String} {k : Kind}
    (rejected : f.rejection? kind = some (.unfit text k)) :
    kind = some k ∧ ¬(k.bits = 8 ∨ k.bits = 16) ∧ ¬k.admits true value = true := by
  rw [rejection?_of_value body read] at rejected
  cases kind with
  | none => cases rejected
  | some k' =>
    dsimp only [Option.elim] at rejected
    split at rejected
    next => cases rejected
    next wide =>
      split at rejected
      next => cases rejected
      next outside =>
        cases rejected
        exact ⟨rfl, wide, outside⟩

/-- With narrowing, a body that fits its return type is within the bounds of the kind it gets. -/
theorem admits_of_resolvedKind? (on : options.narrowing = true)
    (fits : ∀ k, ¬f.Unfit options.exactUnsigned k) {k : Kind}
    (kind : f.resolvedKind? options = some k) : k.admits options.exactUnsigned value = true := by
  rw [resolvedKind?, if_pos on, bodyKind?] at kind
  rw [← mem_admissibleKinds, ← kinds_of_value body read]
  split at kind
  next k' declared =>
    obtain rfl : k' = k := Option.some.inj kind
    by_contra out
    exact fits k' ⟨declared, out⟩
  next k' _ sole =>
    obtain rfl : k' = k := Option.some.inj kind
    simp [sole]
  next => cases kind

/-- With narrowing, only the powers of two above the largest numbers of `u32` and `u64` are rejected
for their kind, and with exact bounds none is. -/
theorem bounds_of_unfit (on : options.narrowing = true)
    (fits : ∀ k, ¬f.Unfit options.exactUnsigned k) {text : String} {k : Kind}
    (rejected : f.rejection? (f.resolvedKind? options) = some (.unfit text k)) :
    options.exactUnsigned = false ∧
      (k = .u32 ∧ value = .integer (Nat.pow 2 32) ∨
        k = .u64 ∧ value = .integer (Nat.pow 2 64)) := by
  obtain ⟨kind, wide, outside⟩ := outside_of_unfit body read rejected
  have within := admits_of_resolvedKind? body read on fits kind
  cases exact : options.exactUnsigned with
  | true =>
    rw [exact] at within
    exact absurd within outside
  | false =>
    rw [exact] at within
    obtain ⟨unsigned, rfl⟩ := (Kind.admits_false_iff.mp within).resolve_left outside
    refine ⟨rfl, ?_⟩
    cases k with
    | u32 => exact .inl ⟨rfl, rfl⟩
    | u64 => exact .inr ⟨rfl, rfl⟩
    | u8 => exact absurd (.inl rfl) wide
    | u16 => exact absurd (.inr rfl) wide
    | _ => cases unsigned

end Valued

end FunctionDecl

theorem Source.Parses.not_rejected {source : Source} {ds : List Decl} (parses : source.Parses ds)
    {p : Program} (same : p.decls.map Decl.untyped = ds) {kind : FunctionDecl → Option Kind}
    {cs : List Constant}
    (constants : List.Forall₂ (fun f c => f.constant? (kind f) = some c) p.functions cs) :
    ∀ f ∈ p.functions, f.rejection? (kind f) = none := by
  intro f hf
  obtain ⟨⟨l, value, body, read⟩, _⟩ := parses.valued same hf
  have each := (List.forall₂_and_left (p := fun f => ∃ c, f.constant? (kind f) = some c) _ _).mp
    (constants.imp fun f c constant => ⟨⟨c, constant⟩, constant⟩)
  exact (FunctionDecl.rejection?_eq_none_iff body read _).mpr (each.1 f hf)

namespace Generator

variable {a : Analysis} {s : Session} {filename : Option String}

theorem log_run (e : Event) (g : Generator) :
    log e g = .ok () { g with journal := e.noteIn g.settings g.journal } := rfl

theorem emitting_of_ok {m : EStateM EmitError Emitter Unit} {emitter e : Emitter}
    (ran : m emitter = .ok () e) (journal : Array Event) (settings : Option LogSettings) :
    emitting m ⟨emitter, journal, settings⟩ = .ok () ⟨e, journal, settings⟩ := by
  simp [emitting, ran]

theorem literalKind_run {l : Literal} {h : Handle} {kind : Option Kind} (type : l.type = some h)
    (known : s.graph.classKind h = .ok kind) (filename : Option String) (g : Generator) :
    literalKind s filename l g =
      kind.elim (.error (.rejected (.unresolved l.text) l.span) g) (.ok · g) := by
  unfold literalKind
  rw [type]
  dsimp only
  rw [known]
  cases kind <;> rfl

theorem lowerKind_run (k : Kind) (span : Option Span) (g : Generator) :
    lowerKind k span g =
      k.valueType?.elim (.error (.rejected (.unsupported k) span) g) (.ok · g) := by
  unfold lowerKind
  cases k.valueType? <;> rfl

theorem checkedValue_run {l : Literal} {value : LiteralValue}
    (read : literalValue l.text l.isDecimal = .ok value) (k : Kind) (g : Generator) :
    checkedValue l k g =
      if k.admits true value then .ok value g
      else .error (.rejected (.unfit l.text k) l.span) g := by
  unfold checkedValue
  rw [read]
  dsimp only
  split <;> rfl

/-- The function is lowered to its constant, or rejected. -/
def Lowers (a : Analysis) (s : Session) (filename : Option String) (kind : Option Kind)
    (f : FunctionDecl) : Prop :=
  ∀ g, Ends (function a s filename f) g
    (fun _ t => ∃ c, f.constant? kind = some c ∧
      t.emitter = g.emitter.append (c.lines g.emitter.level))
    (fun e _ => ∃ problem, f.rejection? kind = some problem ∧ e = .rejected problem f.body.span)

/-- A function whose body has the kind that is declared, if one is, is lowered or rejected. -/
theorem lowers_of_kind {f : FunctionDecl} {l : Literal} {h : Handle} {kind : Option Kind}
    {value : LiteralValue} (body : f.body = .literal l) (type : f.body.type = some h)
    (known : s.graph.classKind h = .ok kind)
    (declared : ∀ k, kind = some k → a.returnKind f = .ok (some k))
    (read : literalValue l.text l.isDecimal = .ok value) : Lowers a s filename kind f := by
  intro g
  rw [body] at type
  have found := literalKind_run type known filename g
  unfold function Ends
  rw [body]
  dsimp only
  cases kind with
  | none =>
    rw [bind_of_error found]
    exact ⟨.unresolved l.text, by simp [FunctionDecl.rejection?, body], rfl⟩
  | some k =>
    have agreed : (liftFault (a.returnKind f) : GeneratorM (Option Kind)) g = .ok (some k) g := by
      rw [declared k rfl]
      rfl
    have lowering := lowerKind_run k l.span g
    have checking := checkedValue_run read k g
    -- the kind that was found is the declared one, so there is no mismatch to report
    rw [bind_of_ok found, bind_of_ok agreed, if_neg (by simp)]
    by_cases small : k.bits = 8 ∨ k.bits = 16
    · rw [Kind.valueType?_eq_none_iff.mpr small] at lowering
      rw [bind_of_error lowering]
      exact ⟨.unsupported k, by simp [FunctionDecl.rejection?, body, small], rfl⟩
    obtain ⟨t, lowered⟩ := Kind.exists_valueType small
    rw [lowered] at lowering
    rw [bind_of_ok lowering]
    by_cases fits : k.admits true value = true
    · obtain ⟨operand, written⟩ := ValueType.operand_of_admits lowered fits
      rw [if_pos fits] at checking
      rw [bind_of_ok checking, bind_of_ok (log_run _ _)]
      have emitted : Emitter.function f.name t.name value (some l.text) g.emitter = .ok () _ :=
        Emitter.function_run (c := ⟨f.name, t, operand, l.text⟩) written g.emitter
      rw [emitting_of_ok emitted]
      refine ⟨⟨f.name, t, operand, l.text⟩, ?_, rfl⟩
      simp [FunctionDecl.constant?, body, lowered, read, fits, written, Except.toOption]
    · rw [if_neg fits] at checking
      rw [bind_of_error checking]
      exact ⟨.unfit l.text k, by simp [FunctionDecl.rejection?, body, small, read, fits], rfl⟩

/-- The failure is about the first of the functions that is not lowered. -/
def FirstRejected (kind : FunctionDecl → Option Kind) (fs : List FunctionDecl)
    (e : GenerateFailure) : Prop :=
  ∃ before f after problem, fs = before ++ f :: after ∧
    (∀ f' ∈ before, ∃ c, f'.constant? (kind f') = some c) ∧
    f.rejection? (kind f) = some problem ∧ e = .rejected problem f.body.span

theorem FirstRejected.cons {kind : FunctionDecl → Option Kind} {f : FunctionDecl}
    {fs : List FunctionDecl} {e : GenerateFailure} {c : Constant}
    (lowered : f.constant? (kind f) = some c) (first : FirstRejected kind fs e) :
    FirstRejected kind (f :: fs) e := by
  obtain ⟨before, f', after, problem, rfl, passed, rejected⟩ := first
  refine ⟨f :: before, f', after, problem, rfl, ?_, rejected⟩
  intro f'' mem
  rcases List.mem_cons.mp mem with rfl | mem
  · exact ⟨c, lowered⟩
  · exact passed f'' mem

/-- A list of functions is lowered in order, up to the first one that is rejected. -/
theorem functions_end {kind : FunctionDecl → Option Kind} {fs : List FunctionDecl}
    (each : ∀ f ∈ fs, Lowers a s filename (kind f) f) (g : Generator) :
    Ends (fs.forM (function a s filename)) g
      (fun _ t => ∃ cs, List.Forall₂ (fun f c => f.constant? (kind f) = some c) fs cs ∧
        t.emitter = g.emitter.append (cs.flatMap (·.lines g.emitter.level)))
      (fun e _ => FirstRejected kind fs e) := by
  induction fs generalizing g with
  | nil => exact ⟨[], .nil, by simp⟩
  | cons f fs ih =>
    have step : (f :: fs).forM (function a s filename) =
        (function a s filename f >>= fun _ => fs.forM (function a s filename)) := rfl
    rw [step]
    refine Ends.bind ((each f (by simp) g).imp ?_ ?_)
    · rintro _ t ⟨c, lowered, emitted⟩
      refine (ih (fun f' mem => each f' (by simp [mem])) t).imp ?_ ?_
      · rintro _ u ⟨cs, rest, emitted'⟩
        refine ⟨c :: cs, .cons lowered rest, ?_⟩
        rw [emitted', emitted]
        simp
      · intro e u first
        exact first.cons lowered
    · rintro e t ⟨problem, rejected⟩
      exact ⟨[], f, fs, problem, rfl, by simp, rejected⟩

theorem exported_run (entry : String × String) (g : Generator) :
    ∃ journal, exported entry.1 entry.2 g =
      .ok () { g with
        emitter := g.emitter.append [exportLine g.emitter.level entry], journal } := by
  unfold exported
  rw [bind_of_ok (log_run _ _), emitting_of_ok (modify_run _ _), Emitter.exportFunction_eq]
  exact ⟨_, rfl⟩

theorem exports_run (entries : List (String × String)) (g : Generator) :
    ∃ journal,
      (entries.forM fun (publicName, name) => exported publicName name : GeneratorM Unit) g =
        .ok ()
          { g with
            emitter := g.emitter.append (entries.map (exportLine g.emitter.level)), journal } := by
  induction entries generalizing g with
  | nil => exact ⟨g.journal, by rw [List.map_nil, Emitter.append_nil]; rfl⟩
  | cons entry entries ih =>
    obtain ⟨journal, first⟩ := exported_run entry g
    obtain ⟨journal', rest⟩ :=
      ih { g with emitter := g.emitter.append [exportLine g.emitter.level entry], journal }
    refine ⟨journal', (bind_of_ok first).trans (rest.trans ?_)⟩
    simp

/-- A program is written as a module, behind which the level is what it was before. -/
theorem program_emits {p : Program} {kind : FunctionDecl → Option Kind}
    (each : ∀ f ∈ p.functions, Lowers a s p.filename (kind f) f) (g : Generator) :
    Ends (program a s p) g
      (fun text t => text = t.emitter.text ∧
        ∃ cs, List.Forall₂ (fun f c => f.constant? (kind f) = some c) p.functions cs ∧
          t.emitter = g.emitter.append (moduleLines g.emitter.level p.name cs a.exports.entries))
      (fun e _ => FirstRejected kind p.functions e) := by
  have head : s!"(module {mangle p.name}" ≠ "" := by simp [toString]
  obtain ⟨e, journal, settings⟩ := g
  unfold program Ends
  rw [bind_of_ok (emitting_of_ok (modify_run _ _) _ _), Emitter.openModule, Emitter.emit_eq _ head]
  refine Ends.bind ((functions_end each _).imp ?_ fun _ _ rejected => rejected)
  rintro _ t ⟨cs, lowered, emitted⟩
  obtain ⟨journal', exports⟩ := exports_run a.exports.entries t
  simp only [emitted, Emitter.indent_append, Emitter.indent_level, Emitter.append_level,
    Emitter.append_append] at exports
  unfold Ends
  rw [bind_of_ok exports, bind_of_ok (emitting_of_ok (Emitter.close_run _) _ _),
    bind_of_ok (get_run _)]
  refine ⟨rfl, cs, lowered, ?_⟩
  simp [moduleLines]

end Generator

namespace Analysis

variable {options : TypingOptions} {source : Source} {ds : List Decl} {a : Analysis} {p : Program}
  {s : Session} {f : FunctionDecl}

theorem Clean.returnKind_eq (clean : a.Clean options p s) (hf : f ∈ p.functions)
    (named : ∀ t, f.returnType = some t → ∃ k, Kind.ofSpelling? t.name = some k) {k : Kind}
    (kind : f.resolvedKind? options = some k) : a.returnKind f = .ok (some k) := by
  cases declared : f.returnType with
  | some t =>
    obtain ⟨k', spelled⟩ := named t declared
    have kind' : f.declaredKind? = some k' := by
      simp [FunctionDecl.declaredKind?, declared, spelled]
    have same : f.resolvedKind? options = some k' :=
      FunctionDecl.resolvedKind?_of_declared kind'
    obtain rfl : k' = k := Option.some.inj (same.symm.trans kind)
    simp only [returnKind, declared, spelled]
    rfl
  | none =>
    obtain ⟨h, type, known⟩ := clean.resolved.exists_classKind hf
    rw [clean.flags, kind] at known
    simp only [returnKind, declared, clean.session, type]
    exact known

/-- Text is generated only for a program without errors. -/
theorem errorless_of_generate {g g' : Generator} {text : String}
    (generated : a.generate g = .ok text g') : ∃ p, a.program = some p ∧ a.hasErrors = false := by
  unfold generate at generated
  rw [bind_of_ok (Generator.log_run _ _)] at generated
  cases program : a.program with
  | none =>
    rw [program] at generated
    cases generated
  | some p =>
    refine ⟨p, rfl, Bool.eq_false_iff.mpr fun errors => ?_⟩
    rw [program] at generated
    dsimp only at generated
    rw [if_pos errors] at generated
    cases generated

/-- Generating code for an analysis without errors writes its constants, or is about the first
function that is rejected. -/
theorem Clean.generate_emits (clean : a.Clean options p s) (parses : source.Parses ds)
    (same : p.decls.map Decl.untyped = ds) (g : Generator) :
    Ends a.generate g
      (fun text t => text = t.emitter.text ∧ ∃ cs,
        List.Forall₂ (fun f c => f.constant? (f.resolvedKind? options) = some c) p.functions cs ∧
        t.emitter = g.emitter.append (moduleLines g.emitter.level p.name cs a.exports.entries))
      (fun e _ => Generator.FirstRejected (·.resolvedKind? options) p.functions e) := by
  have each : ∀ f ∈ p.functions,
      Generator.Lowers a s p.filename (f.resolvedKind? options) f := by
    intro f hf
    obtain ⟨⟨l, value, body, read⟩, named⟩ := parses.valued same hf
    obtain ⟨h, type, known⟩ := clean.resolved.exists_classKind hf
    rw [clean.flags] at known
    exact Generator.lowers_of_kind body type known
      (fun k kind => clean.returnKind_eq hf named kind) read
  have solved : a.session.filter (·.solved) = some s := by
    simp [clean.session, clean.resolved.solved]
  unfold generate Ends
  rw [bind_of_ok (Generator.log_run _ _), clean.program]
  dsimp only
  rw [if_neg (by simp [clean.hasErrors_eq_false]), solved]
  exact Generator.program_emits each _

/-- Generating code for an analysis without errors gives the text of its constants, or is about the
first function that is rejected. -/
theorem Clean.generate_ends (clean : a.Clean options p s) (parses : source.Parses ds)
    (same : p.decls.map Decl.untyped = ds) (g : Generator) :
    Ends a.generate g
      (fun text _ => ∃ cs,
        List.Forall₂ (fun f c => f.constant? (f.resolvedKind? options) = some c) p.functions cs ∧
        text = (g.emitter.append
          (moduleLines g.emitter.level p.name cs a.exports.entries)).text)
      (fun e _ => Generator.FirstRejected (·.resolvedKind? options) p.functions e) := by
  refine (clean.generate_emits parses same g).imp ?_ fun _ _ rejected => rejected
  rintro text t ⟨rfl, cs, lowered, emitted⟩
  exact ⟨cs, lowered, by rw [emitted]⟩

/-- Generating code for an analysis without errors gives a text exactly if every function can be
lowered, and otherwise reports the first that cannot. A function is rejected if its body has no
kind, which a warning has told; else if its kind is too small; else if its value is out of exact
bounds. With narrowing the last happens to two numbers only, and not with exact bounds. -/
theorem generate_reports_first_rejection {c : Context} (analyzed : (c.analyze source).1 = .ok a)
    (program : a.program = some p) (errorless : a.hasErrors = false) (g : Generator) :
    ∃ s, a.session = some s ∧
      (∀ f ∈ p.functions, ∃ l h value t, f.body = .literal l ∧ l.type = some h ∧
        literalValue l.text l.isDecimal = .ok value ∧
        Session.reifyKind h s = .ok (f.resolvedKind? c.typing) t ∧
        (c.typing.narrowing = true → ∀ text k,
          f.rejection? (f.resolvedKind? c.typing) = some (.unfit text k) →
          c.typing.exactUnsigned = false ∧ (k = .u32 ∧ value = .integer (Nat.pow 2 32) ∨
            k = .u64 ∧ value = .integer (Nat.pow 2 64)))) ∧
      a.diagnostics = p.functions.filterMap (·.openWarning? c.typing p.filename) ∧
      Ends a.generate g
        (fun _ _ => ∀ f ∈ p.functions, f.rejection? (f.resolvedKind? c.typing) = none)
        (fun e _ => ∃ before f after problem, p.functions = before ++ f :: after ∧
          (∀ f' ∈ before, f'.rejection? (f'.resolvedKind? c.typing) = none) ∧
          f.rejection? (f.resolvedKind? c.typing) = some problem ∧
          e = .rejected problem f.body.span ∧
          problem.code = (f.resolvedKind? c.typing).elim ⟨.gen, 10⟩ fun k =>
            if k.bits = 8 ∨ k.bits = 16 then ⟨.gen, 20⟩ else ⟨.gen, 40⟩) := by
  obtain ⟨ds, s, parses, _, _, same, clean⟩ := clean_of_context analyzed program errorless
  refine ⟨s, clean.session, fun f hf => ?_, clean.warnings, ?_⟩
  · obtain ⟨⟨l, value, body, read⟩, _⟩ := parses.valued same hf
    obtain ⟨h, t, type, kind⟩ := clean.resolved.exists_kind hf
    rw [body] at type
    rw [clean.flags] at kind
    refine ⟨l, h, value, t, body, type, read, kind, fun on text k rejected => ?_⟩
    exact FunctionDecl.bounds_of_unfit body read on (clean.fits on f hf) rejected
  · refine (clean.generate_ends parses same g).imp ?_ ?_
    · rintro text t ⟨cs, constants, _⟩
      exact parses.not_rejected same constants
    · rintro e t ⟨before, f, after, problem, split, passed, rejected, rfl⟩
      have hf : f ∈ p.functions := by simp [split]
      obtain ⟨⟨l, value, body, read⟩, _⟩ := parses.valued same hf
      refine ⟨before, f, after, problem, split, fun f' mem => ?_, rejected, rfl, ?_⟩
      · have hf' : f' ∈ p.functions := by simp [split, mem]
        obtain ⟨⟨l', value', body', read'⟩, _⟩ := parses.valued same hf'
        exact (FunctionDecl.rejection?_eq_none_iff body' read' _).mpr (passed f' mem)
      · exact FunctionDecl.code_of_rejection? body read rejected

/-- Three functions, of which the second is at the bound of its return type and the third has no
kind. -/
def atBound : Source :=
  { text := "function f: i32 7\nfunction g: u32 4294967296\nfunction h 5" }

theorem generate_reports_first_rejection_atBound :
    ∃ a p, (Context.analyze {} atBound).1 = .ok a ∧ a.program = some p ∧ a.hasErrors = false ∧
      ∀ g, Ends a.generate g (fun _ _ => False)
        (fun e _ => ∃ span, e = .rejected (.unfit "4294967296" .u32) span) := by
  have run : (Context.analyze {} atBound).1.toOption.any (fun a => a.program.any fun p =>
      !a.hasErrors && decide (p.functions.map (fun f => f.rejection? (f.resolvedKind? {})) =
        [none, some (.unfit "4294967296" .u32), some (.unresolved "5")])) = true := by
    decide +kernel
  cases analyzed : (Context.analyze {} atBound).1 with
  | error e =>
    rw [analyzed] at run
    cases run
  | ok a =>
    rw [analyzed, Except.toOption, Option.any_some] at run
    obtain ⟨p, program, run⟩ := (Option.any_eq_true _ _).mp run
    rw [Bool.and_eq_true, decide_eq_true_eq, Bool.not_eq_true'] at run
    obtain ⟨errorless, rejections⟩ := run
    refine ⟨a, p, rfl, program, errorless, fun g => ?_⟩
    obtain ⟨_, _, _, _, ends⟩ := generate_reports_first_rejection analyzed program errorless g
    refine ends.imp ?_ ?_
    · intro text t all
      have none : ∀ r ∈ p.functions.map fun f => f.rejection? (f.resolvedKind? {}), r = none := by
        simpa using all
      simp [rejections] at none
    · rintro e t ⟨before, f, after, problem, split, passed, rejected, rfl, _⟩
      rw [split, List.map_append, List.map_cons, rejected] at rejections
      have none : ∀ r ∈ before.map fun f => f.rejection? (f.resolvedKind? {}), r = none := by
        simpa using passed
      generalize before.map _ = rs at rejections none
      rcases rs with _ | ⟨r, _ | ⟨r', rs⟩⟩
      · cases rejections
      · obtain ⟨_, rfl, _⟩ : r = Option.none ∧ problem = .unfit "4294967296" .u32 ∧ _ := by
          simpa using rejections
        exact ⟨f.body.span, rfl⟩
      · obtain ⟨_, rfl, _⟩ : r = Option.none ∧ r' = some (.unfit "4294967296" .u32) ∧ _ := by
          simpa using rejections
        simp at none

end Analysis

end ConstFun
