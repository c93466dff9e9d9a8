import ConstFun.Proofs.Lowering

namespace ConstFun

namespace FunctionDecl

variable {f : FunctionDecl} {options : TypingOptions} {c : Constant}

theorem resolvedKind?_untyped (options : TypingOptions) (f : FunctionDecl) :
    f.untyped.resolvedKind? options = f.resolvedKind? options := by
  have kinds (exact : Bool) : f.untyped.kinds exact = f.kinds exact := by
    unfold FunctionDecl.kinds untyped
    cases body : f.body <;> simp [body, Literal.kinds]
  simp [resolvedKind?, bodyKind?, declaredKind?, kinds]

theorem resolvedKind?_of_undeclared {k : Kind} (plain : f.declaredKind? = none) :
    f.resolvedKind? options = some k ↔
      options.narrowing = true ∧ f.kinds options.exactUnsigned = [k] := by
  unfold resolvedKind? bodyKind?
  rw [plain]
  cases options.narrowing with
  | false => simp
  | true => rcases f.kinds options.exactUnsigned with _ | ⟨k', _ | ⟨k'', rest⟩⟩ <;> simp

theorem constant?_untyped (kind : Option Kind) (f : FunctionDecl) :
    f.untyped.constant? kind = f.constant? kind := by
  unfold constant? untyped
  cases body : f.body <;> cases kind <;> simp [body]

/-- The function is well-typed, and lowered to the constant. -/
def Compiles (options : TypingOptions) (f : FunctionDecl) (c : Constant) : Prop :=
  (options.narrowing = true → ∀ k, ¬f.Unfit options.exactUnsigned k) ∧
    f.constant? (f.resolvedKind? options) = some c

theorem compiles_untyped : f.untyped.Compiles options c ↔ f.Compiles options c := by
  simp only [Compiles, unfit_untyped, resolvedKind?_untyped, constant?_untyped]

/-- A constant is of the type of the body's kind, holds its value, and has the body's text as its
source. -/
theorem lowered_of_constant? {kind : Option Kind} (constant : f.constant? kind = some c) :
    ∃ l value k, f.body = .literal l ∧ literalValue l.text l.isDecimal = .ok value ∧
      kind = some k ∧ k.admits true value = true ∧ k.valueType? = some c.type ∧
      c.type.operand value = .ok c.operand ∧ c.name = f.name ∧ c.source = l.text := by
  unfold constant? at constant
  split at constant
  next l k body =>
    split at constant
    next type value lowered read =>
      split at constant
      next fits =>
        cases written : type.operand value with
        | error e => simp [written, Except.toOption] at constant
        | ok operand =>
          simp only [written, Except.toOption, Option.map_some, Option.some.injEq] at constant
          subst constant
          exact ⟨l, value, k, body, read, rfl, fits, lowered, written, rfl, rfl⟩
      next => cases constant
    next => cases constant
  next => cases constant

/-- A function that compiles under some options compiles to the same with narrowing, whether the
bounds are exact or not. -/
theorem Compiles.narrowed (compiles : f.Compiles options c) (exact : Bool) :
    f.Compiles { exactUnsigned := exact, narrowing := true } c := by
  obtain ⟨_, constant⟩ := compiles
  obtain ⟨l, value, k, body, read, kind, fits, _⟩ := lowered_of_constant? constant
  have held := kinds_of_value body read
  cases declared : f.declaredKind? with
  | some k' =>
    have same (o : TypingOptions) : f.resolvedKind? o = some k' :=
      resolvedKind?_of_declared declared
    obtain rfl : k' = k := Option.some.inj ((same options).symm.trans kind)
    refine ⟨?_, by rwa [same, ← same options]⟩
    rintro - k ⟨declared', out⟩
    obtain rfl : k' = k := Option.some.inj (declared.symm.trans declared')
    rw [held, mem_admissibleKinds] at out
    exact out (Kind.admits_of_exact exact fits)
  | none =>
    -- the kind is the only one that can hold the body, and that does not depend on the bounds
    obtain ⟨_, sole⟩ := (resolvedKind?_of_undeclared declared).mp kind
    rw [held] at sole
    have sole' : f.kinds exact = [k] := by rw [held, admissibleKinds_of_sole sole fits]
    refine ⟨by simp [Unfit, declared], ?_⟩
    have kind' : f.resolvedKind? { exactUnsigned := exact, narrowing := true } = some k :=
      (resolvedKind?_of_undeclared declared).mpr ⟨rfl, sole'⟩
    rw [kind', ← kind]
    exact constant

end FunctionDecl

namespace Program

variable {p q : Program}

theorem mem_functions {f : FunctionDecl} : f ∈ p.functions ↔ .function f ∈ p.decls := by
  unfold functions
  rw [List.mem_filterMap]
  constructor
  · rintro ⟨d, mem, eq⟩
    cases d with
    | exportOf e => cases eq
    | function g =>
      cases eq
      exact mem
  · exact fun mem => ⟨.function f, mem, rfl⟩

theorem mem_exports {e : ExportDecl} : e ∈ p.exports ↔ .exportOf e ∈ p.decls := by
  unfold exports
  rw [List.mem_filterMap]
  constructor
  · rintro ⟨d, mem, eq⟩
    cases d with
    | function f => cases eq
    | exportOf e' =>
      cases eq
      exact mem
  · exact fun mem => ⟨.exportOf e, mem, rfl⟩

theorem functions_of_untyped (decls : p.decls.map Decl.untyped = q.decls) :
    q.functions = p.functions.map FunctionDecl.untyped := by
  unfold functions
  rw [← decls, List.filterMap_map, List.map_filterMap]
  refine List.filterMap_congr fun d _ => ?_
  cases d <;> rfl

theorem exports_of_untyped (decls : p.decls.map Decl.untyped = q.decls) :
    q.exports = p.exports := by
  unfold exports
  rw [← decls, List.filterMap_map]
  refine List.filterMap_congr fun d _ => ?_
  cases d <;> rfl

end Program

namespace Names

/-- The names of the functions as they were before their bodies were given types. -/
def untyped (n : Names) : Names :=
  { n with functions := n.functions.mapValues FunctionDecl.untyped }

theorem contains_untyped (n : Names) (name : String) :
    n.untyped.functions.contains name = n.functions.contains name := by
  simp [untyped, Table.contains, Table.get?_mapValues]

theorem addFunction_untyped (filename : Option String) (n : Names) (f : FunctionDecl) :
    addFunction filename n.untyped f.untyped = (addFunction filename n f).untyped := by
  unfold addFunction
  rw [f.name_untyped, f.place_untyped, contains_untyped]
  split
  next => rfl
  next => simp only [untyped, Table.insert_mapValues]

theorem addExport_untyped (filename : Option String) (n : Names) (e : ExportDecl) :
    addExport filename n.untyped e = (addExport filename n e).untyped := by
  unfold addExport
  rw [contains_untyped]
  split
  next => rfl
  next =>
    change (if n.exports.contains e.publicName then _ else _) = _
    split <;> rfl

theorem ownExports_untyped (n : Names) : n.untyped.ownExports = n.ownExports := by
  simp [ownExports, untyped, Table.mapValues, List.filterMap_map]

/-- The names of a program do not depend on the types of its bodies. -/
theorem ofProgram_untyped {p q : Program} (decls : p.decls.map Decl.untyped = q.decls)
    (file : p.filename = q.filename) : ofProgram q = (ofProgram p).untyped := by
  have functions : q.functions.foldl (addFunction q.filename) {} =
      (p.functions.foldl (addFunction p.filename) {}).untyped := by
    rw [Program.functions_of_untyped decls, List.foldl_map, ← file]
    change p.functions.foldl (fun n f => addFunction p.filename n f.untyped) (untyped {}) = _
    refine List.foldl_hom untyped ?_
    intro n f
    exact addFunction_untyped p.filename n f
  unfold ofProgram
  dsimp only
  rw [functions, ownExports_untyped, Program.exports_of_untyped decls, ← file]
  refine List.foldl_hom untyped ?_
  intro n e
  exact addExport_untyped p.filename n e

end Names

namespace Source

variable {source : Source} {options : TypingOptions} {c c' : Context} {ds : List Decl}
  {cs : List Constant} {text : String}

/-- The text that is generated for a source in a context, if its analysis has no errors. -/
def compile? (c : Context) (source : Source) : Option String :=
  match (c.analyze source).1 with
  | .error _ => none
  | .ok a => if a.hasErrors then none else (c.generate a).1.toOption

theorem compile?_eq_some : source.compile? c = some text ↔
    ∃ a g, (c.analyze source).1 = .ok a ∧ a.hasErrors = false ∧
      a.generate { settings := some c.log } = .ok text g := by
  constructor
  · intro compiled
    unfold compile? at compiled
    split at compiled
    next => cases compiled
    next a analyzed =>
      split at compiled
      next => cases compiled
      next errorless =>
        cases generated : (c.generate a).1 with
        | error e => simp [generated, Except.toOption] at compiled
        | ok text' =>
          obtain rfl : text' = text := by simpa [generated, Except.toOption] using compiled
          obtain ⟨g, ran⟩ := Generator.exists_of_conclude generated
          exact ⟨a, g, analyzed, Bool.eq_false_iff.mpr errorless, ran⟩
  · rintro ⟨a, g, analyzed, errorless, generated⟩
    simp [compile?, Context.generate, Generator.conclude, analyzed, errorless, generated,
      Except.toOption]

/-- The program of the declarations, before their bodies are given types. -/
def program (source : Source) (ds : List Decl) : Program :=
  { name := source.moduleName, decls := ds, filename := some source.filename }

/-- The source parses as the declarations, whose names have no problem and whose functions compile
to the constants. -/
structure CompilesTo (options : TypingOptions) (source : Source) (ds : List Decl)
    (cs : List Constant) : Prop where
  parses : source.Parses ds
  named : (Names.ofProgram (source.program ds)).diagnostics = []
  constants : List.Forall₂ (·.Compiles options) (source.program ds).functions cs

/-- A source that reads as one function compiles to its constant. -/
theorem CompilesTo.sole {f : FunctionDecl} {c : Constant}
    (compiled : source.CompilesTo options ds cs)
    (read : (tokenize source.text).toOption.all (fun tokens =>
      decide ((Parser.items { rest := tokens }).1 = [.function f])) = true)
    (lowered : f.constant? (f.resolvedKind? options) = some c) :
    ds = [.function f] ∧ cs = [c] := by
  obtain ⟨tokens, rest, lexed, parsed⟩ := compiled.parses.parsed
  simp only [lexed, parsed, Except.toOption, Option.all_some, decide_eq_true_eq] at read
  subst read
  have constants : List.Forall₂ (·.Compiles options) [f] cs := compiled.constants
  obtain ⟨c', cs, first, none, rfl⟩ := List.forall₂_cons_left_iff.mp constants
  obtain rfl := List.forall₂_nil_left_iff.mp none
  rw [Option.some.inj (lowered.symm.trans first.2)]
  exact ⟨rfl, rfl⟩

/-- The text of a module with the constants, and the exports of the declarations. -/
def moduleText (source : Source) (ds : List Decl) (cs : List Constant) : String :=
  (({} : Emitter).append (moduleLines 0 source.moduleName cs
    (Names.ofProgram (source.program ds)).exports.entries)).text

section Typed

variable {p : Program} (same : p.decls.map Decl.untyped = ds)
  (file : p.filename = some source.filename)

include same file

theorem compilesTo_iff (parses : source.Parses ds) :
    source.CompilesTo options ds cs ↔ (Names.ofProgram p).diagnostics = [] ∧
      List.Forall₂ (·.Compiles options) p.functions cs := by
  have names : Names.ofProgram (source.program ds) = (Names.ofProgram p).untyped :=
    Names.ofProgram_untyped same file
  have functions : (source.program ds).functions = p.functions.map FunctionDecl.untyped :=
    Program.functions_of_untyped same
  constructor
  · rintro ⟨_, named, constants⟩
    rw [names] at named
    rw [functions, List.forall₂_map_left_iff] at constants
    exact ⟨named, constants.imp fun f c compiles => FunctionDecl.compiles_untyped.mp compiles⟩
  · rintro ⟨named, constants⟩
    refine ⟨parses, names ▸ named, ?_⟩
    rw [functions, List.forall₂_map_left_iff]
    exact constants.imp fun f c compiles => FunctionDecl.compiles_untyped.mpr compiles

theorem moduleText_eq (cs : List Constant) :
    source.moduleText ds cs = (({} : Emitter).append (moduleLines 0 source.moduleName cs
      (Names.ofProgram p).exports.entries)).text := by
  have names : Names.ofProgram (source.program ds) = (Names.ofProgram p).untyped :=
    Names.ofProgram_untyped same file
  rw [moduleText, names]
  rfl

end Typed

theorem CompilesTo.of_compile? (compiled : source.compile? c = some text) :
    ∃ ds cs, source.CompilesTo c.typing ds cs ∧ text = source.moduleText ds cs := by
  obtain ⟨a, g, analyzed, _, generated⟩ := compile?_eq_some.mp compiled
  obtain ⟨p, program, errorless⟩ := Analysis.errorless_of_generate generated
  obtain ⟨ds, s, parses, name, file, same, clean⟩ :=
    Analysis.clean_of_context analyzed program errorless
  have ends := clean.generate_ends parses same { settings := some c.log }
  unfold Ends at ends
  rw [generated] at ends
  obtain ⟨cs, constants, rfl⟩ := ends
  have fits : ∀ f ∈ p.functions, c.typing.narrowing = true →
      ∀ k, ¬f.Unfit c.typing.exactUnsigned k := fun f hf on => clean.fits on f hf
  have each := (List.forall₂_and_left _ _).mpr ⟨fits, constants⟩
  refine ⟨ds, cs, (compilesTo_iff same file parses).mpr ⟨clean.named, each⟩, ?_⟩
  rw [moduleText_eq same file, clean.exports, name]

theorem CompilesTo.compile?_eq (compiled : source.CompilesTo c.typing ds cs) :
    source.compile? c = some (source.moduleText ds cs) := by
  obtain ⟨a, p, analyzed, program, name, file, same, outcome⟩ :=
    Analysis.analyze_run compiled.parses c.typing
  obtain ⟨named, each⟩ := (compilesTo_iff same file compiled.parses).mp compiled
  obtain ⟨fits, constants⟩ := (List.forall₂_and_left _ _).mp each
  rcases outcome with ⟨_, problems | ⟨on, f, hf, k, unfit⟩⟩ | ⟨s, clean⟩
  · exact absurd named problems
  · exact absurd unfit (fits f hf on k)
  · have clean := clean.heard c.log
    have ends := clean.generate_ends compiled.parses same { settings := some c.log }
    unfold Ends at ends
    split at ends
    next text g generated =>
      obtain ⟨cs', constants', rfl⟩ := ends
      have unique : Relator.RightUnique
          fun (f : FunctionDecl) d => f.constant? (f.resolvedKind? c.typing) = some d :=
        fun f d d' one two => Option.some.inj (one.symm.trans two)
      obtain rfl : cs' = cs := List.right_unique_forall₂' unique constants' constants
      refine compile?_eq_some.mpr
        ⟨_, g, c.analyze_of_ok analyzed, clean.hasErrors_eq_false, ?_⟩
      rw [generated, moduleText_eq same file, clean.exports, name]
    next e g failed =>
      obtain ⟨before, f, after, problem, split, _, rejected, _⟩ := ends
      rw [compiled.parses.not_rejected same constants f (by simp [split])] at rejected
      cases rejected

theorem compile?_narrowed (compiled : source.compile? c = some text)
    (on : c'.typing.narrowing = true) : source.compile? c' = some text := by
  obtain ⟨⟨exact, narrowing⟩, log⟩ := c'
  obtain rfl : narrowing = true := on
  obtain ⟨ds, cs, whole, rfl⟩ := CompilesTo.of_compile? compiled
  have constants := whole.constants.imp fun f d compiles => compiles.narrowed exact
  exact CompilesTo.compile?_eq ⟨whole.parses, whole.named, constants⟩

/-- Exact bounds do not change what compiles, nor to which text. -/
theorem compile?_exact (compiled : source.compile? c = some text)
    (same : c'.typing.narrowing = c.typing.narrowing) : source.compile? c' = some text := by
  cases narrowing : c'.typing.narrowing with
  | true => exact compile?_narrowed compiled narrowing
  | false =>
    -- without narrowing the bounds are not looked at before lowering
    obtain ⟨ds, cs, whole, rfl⟩ := CompilesTo.of_compile? compiled
    have off : c.typing.narrowing = false := same.symm.trans narrowing
    have constants : List.Forall₂ (·.Compiles c'.typing) (source.program ds).functions cs := by
      refine whole.constants.imp fun f d compiles => ⟨by simp [narrowing], ?_⟩
      have kind : f.resolvedKind? c'.typing = f.resolvedKind? c.typing := by
        simp [FunctionDecl.resolvedKind?, narrowing, off]
      rw [kind]
      exact compiles.2
    exact CompilesTo.compile?_eq ⟨whole.parses, whole.named, constants⟩

/-- The context never changes the text that a source compiles to. Exact bounds do not change whether
it compiles either, and what compiles at all compiles with narrowing. -/
theorem options_keep_compiled_text (source : Source) :
    (∀ c c' text text', source.compile? c = some text → source.compile? c' = some text' →
      text = text') ∧
    (∀ c c' : Context, c.typing.narrowing = c'.typing.narrowing →
      (source.compile? c).isSome = (source.compile? c').isSome) ∧
    ∀ c c' : Context, c'.typing.narrowing = true → (source.compile? c).isSome →
      (source.compile? c').isSome := by
  refine ⟨?_, fun c c' same => ?_, fun c c' on compiled => ?_⟩
  · intro c c' text text' compiled compiled'
    have one : source.compile? {} = some text := compile?_narrowed compiled rfl
    have two : source.compile? {} = some text' := compile?_narrowed compiled' rfl
    exact Option.some.inj (one.symm.trans two)
  · rw [Bool.eq_iff_iff, Option.isSome_iff_exists, Option.isSome_iff_exists]
    constructor
    · rintro ⟨text, compiled⟩
      exact ⟨text, compile?_exact compiled same.symm⟩
    · rintro ⟨text, compiled⟩
      exact ⟨text, compile?_exact compiled same⟩
  · obtain ⟨text, compiled⟩ := Option.isSome_iff_exists.mp compiled
    exact Option.isSome_iff_exists.mpr ⟨text, compile?_narrowed compiled on⟩

/-- Two functions whose return types can hold their bodies, the first at its bound. -/
def fittingWords : Source :=
  { text := "export function f: u32 4294967295\nfunction g: f64 0.5" }

/-- The context that differs most from the default. -/
def strictContext : Context :=
  { typing := { exactUnsigned := true, narrowing := false }
    log := { rich := true, level := .debug, trace := true } }

theorem options_keep_compiled_text_fittingWords :
    ∃ text, fittingWords.compile? {} = some text ∧
      fittingWords.compile? strictContext = some text := by
  have loose : (fittingWords.compile? {}).isSome := by decide +kernel
  have strict : (fittingWords.compile? strictContext).isSome := by decide +kernel
  obtain ⟨text, compiled⟩ := Option.isSome_iff_exists.mp loose
  obtain ⟨text', compiled'⟩ := Option.isSome_iff_exists.mp strict
  obtain rfl := (options_keep_compiled_text fittingWords).1 _ _ _ _ compiled compiled'
  exact ⟨text, compiled, compiled'⟩

end Source

end ConstFun
