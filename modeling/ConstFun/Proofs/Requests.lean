import ConstFun.Proofs.Exits
import ConstFun.Proofs.Naming

namespace ConstFun

section Earlier

variable {α : Type}

/-- The elements that pass a test, which may look at those before them. -/
def filterBehind (test : List α → α → Bool) (l : List α) : List α :=
  (l.zipIdx.filter fun e => test (l.take e.2) e.1).map Prod.fst

theorem mem_of_mem_filterBehind {test : List α → α → Bool} {l : List α} {a : α}
    (mem : a ∈ filterBehind test l) : a ∈ l := by
  obtain ⟨e, kept, rfl⟩ := List.mem_map.mp mem
  exact List.fst_mem_of_mem_zipIdx (List.mem_filter.mp kept).1

theorem filterBehind_concat (test : List α → α → Bool) (l : List α) (a : α) :
    filterBehind test (l ++ [a]) = filterBehind test l ++ if test l a then [a] else [] := by
  have before : (l.zipIdx.filter fun e => test ((l ++ [a]).take e.2) e.1) =
      l.zipIdx.filter fun e => test (l.take e.2) e.1 := by
    refine List.filter_congr fun e mem => ?_
    have inside := List.snd_lt_of_mem_zipIdx mem
    rw [List.take_append_of_le_length (by omega)]
  unfold filterBehind
  rw [List.zipIdx_append, List.filter_append, List.map_append, before]
  cases passes : test l a <;> simp [passes]

end Earlier

/-- The functions that have their names: no earlier one has the same. -/
def firstDeclarations (fs : List FunctionDecl) : List FunctionDecl :=
  filterBehind (fun before f => f.name ∉ before.map (·.name)) fs

/-- The functions whose names are taken by earlier ones. -/
def laterDeclarations (fs : List FunctionDecl) : List FunctionDecl :=
  filterBehind (fun before f => f.name ∈ before.map (·.name)) fs

section Declarations

variable (fs : List FunctionDecl)

theorem firstDeclarations_concat (f : FunctionDecl) :
    firstDeclarations (fs ++ [f]) =
      firstDeclarations fs ++ if f.name ∈ fs.map (·.name) then [] else [f] := by
  simp only [firstDeclarations, filterBehind_concat, decide_eq_true_eq, ite_not]

theorem laterDeclarations_concat (f : FunctionDecl) :
    laterDeclarations (fs ++ [f]) =
      laterDeclarations fs ++ if f.name ∈ fs.map (·.name) then [f] else [] := by
  simp only [laterDeclarations, filterBehind_concat, decide_eq_true_eq]

/-- A function is a first declaration or a later one. -/
theorem length_declarations :
    (firstDeclarations fs).length + (laterDeclarations fs).length = fs.length := by
  induction fs using List.reverseRecOn with
  | nil => rfl
  | append_singleton fs f ih =>
    rw [firstDeclarations_concat, laterDeclarations_concat]
    split <;> simp <;> omega

theorem mem_names_firstDeclarations (name : String) :
    name ∈ (firstDeclarations fs).map (·.name) ↔ name ∈ fs.map (·.name) := by
  induction fs using List.reverseRecOn with
  | nil => rfl
  | append_singleton fs f ih =>
    rw [firstDeclarations_concat, List.map_append, List.map_append, List.mem_append,
      List.mem_append, ih]
    split
    next known =>
      simp only [List.map_nil, List.not_mem_nil, or_false, List.map_cons, List.mem_singleton,
        iff_self_or]
      rintro rfl
      exact known
    next => rfl

/-- The first declaration of a name is the first function that has it. -/
theorem find?_firstDeclarations (name : String) :
    (firstDeclarations fs).find? (fun f => f.name = name) = fs.find? fun f => f.name = name := by
  induction fs using List.reverseRecOn with
  | nil => rfl
  | append_singleton fs f ih =>
    rw [firstDeclarations_concat, List.find?_append, List.find?_append, ih]
    split
    next known =>
      by_cases same : f.name = name
      · obtain ⟨g, mem, eq⟩ := List.mem_map.mp known
        have found : (fs.find? fun f => f.name = name).isSome :=
          List.find?_isSome.mpr ⟨g, mem, by simp [eq, same]⟩
        obtain ⟨g', found⟩ := Option.isSome_iff_exists.mp found
        rw [found]
        rfl
      · simp [same]
    next => rfl

theorem laterDeclarations_eq_nil_iff :
    laterDeclarations fs = [] ↔ (fs.map (·.name)).Nodup := by
  induction fs using List.reverseRecOn with
  | nil => simp [laterDeclarations, filterBehind]
  | append_singleton fs f ih =>
    rw [laterDeclarations_concat, List.append_eq_nil_iff, ih, List.map_append, List.map_singleton,
      List.nodup_append]
    split
    next known =>
      refine ⟨fun none => absurd none.2 (List.cons_ne_nil _ _), fun distinct => ?_⟩
      exact absurd rfl (distinct.2.2 _ known _ (by simp))
    next fresh =>
      simp only [and_true, List.nodup_singleton, true_and, List.mem_singleton, forall_eq]
      refine ⟨fun distinct => ⟨distinct, fun name mem same => fresh (same ▸ mem)⟩, And.left⟩

end Declarations

/-- The entry of a function that has its name. -/
def FunctionDecl.entry (f : FunctionDecl) : String × FunctionDecl := (f.name, f)

/-- What is said of a function whose name is taken. -/
def FunctionDecl.nameTaken (filename : Option String) (f : FunctionDecl) : Diagnostic :=
  .atSpan .error (.naming (.duplicateFunction f.name)) filename f.span

/-- A request for an export, with the problem it has; a request without one is granted. -/
structure Answer where
  request : ExportDecl
  problem : Option NameProblem
  deriving DecidableEq, Repr

/-- The requests that are granted. -/
def granted (answers : List Answer) : List ExportDecl :=
  (answers.filter (·.problem.isNone)).map (·.request)

/-- The problem of a request, where some names are declared and others were answered before. -/
def ExportDecl.problem? (declared : List String) (before : List Answer) (r : ExportDecl) :
    Option NameProblem :=
  if r.name ∉ declared then some (.unknownExport r.name)
  else if r.publicName ∈ (granted before).map (·.publicName) then
    some (.duplicateAlias r.publicName)
  else none

section Problems

variable {declared : List String} {answers : List Answer} {r : ExportDecl}

theorem granted_concat (answers : List Answer) (a : Answer) :
    granted (answers ++ [a]) = granted answers ++ if a.problem = none then [a.request] else [] := by
  cases free : a.problem <;> simp [granted, free]

theorem ExportDecl.problem?_of_unknown (unknown : r.name ∉ declared) :
    r.problem? declared answers = some (.unknownExport r.name) := if_pos unknown

theorem ExportDecl.problem?_of_taken (known : r.name ∈ declared)
    (taken : r.publicName ∈ (granted answers).map (·.publicName)) :
    r.problem? declared answers = some (.duplicateAlias r.publicName) := by
  rw [problem?, if_neg (not_not.mpr known), if_pos taken]

theorem ExportDecl.problem?_of_free (known : r.name ∈ declared)
    (free : r.publicName ∉ (granted answers).map (·.publicName)) :
    r.problem? declared answers = none := by
  rw [problem?, if_neg (not_not.mpr known), if_neg free]

end Problems

/-- The entry of an export that is granted. -/
def ExportDecl.entry (e : ExportDecl) : String × String := (e.publicName, e.name)

/-- What is said of a request that is not granted. -/
def Answer.diagnostic? (filename : Option String) (a : Answer) : Option Diagnostic :=
  a.problem.map fun problem => .atSpan .error (.naming problem) filename a.request.span

/-- Requests are answered in their order, each after those before it. -/
structure Answers (declared : List String) (requests : List ExportDecl) (answers : List Answer) :
    Prop where
  asked : answers.map (·.request) = requests
  each : ∀ before a after, answers = before ++ a :: after →
    a.problem = a.request.problem? declared before

namespace Answers

variable {declared : List String} {requests : List ExportDecl} {answers : List Answer}

theorem nil (declared : List String) : Answers declared [] [] := ⟨rfl, by simp⟩

theorem concat (answered : Answers declared requests answers) (r : ExportDecl) :
    Answers declared (requests ++ [r]) (answers ++ [⟨r, r.problem? declared answers⟩]) where
  asked := by simp [answered.asked]
  each before a after split := by
    rcases List.eq_nil_or_concat' after with rfl | ⟨after, last, rfl⟩
    · obtain ⟨rfl, same⟩ := List.append_inj' split rfl
      obtain rfl := List.singleton_inj.mp same
      rfl
    · rw [← List.cons_append, ← List.append_assoc] at split
      exact answered.each before a after (List.append_inj' split rfl).1

theorem of_concat {a : Answer} {requests : List ExportDecl}
    (answered : Answers declared requests (answers ++ [a])) :
    Answers declared (answers.map (·.request)) answers ∧
      a.problem = a.request.problem? declared answers :=
  ⟨⟨rfl, fun before b after split => answered.each before b (after ++ [a]) (by simp [split])⟩,
    answered.each answers a [] rfl⟩

/-- Only whether a name is declared counts. -/
theorem of_mem_iff {declared' : List String} (answered : Answers declared requests answers)
    (same : ∀ name, name ∈ declared ↔ name ∈ declared') : Answers declared' requests answers := by
  refine ⟨answered.asked, fun before a after split => ?_⟩
  rw [answered.each before a after split]
  simp only [ExportDecl.problem?, same]

theorem mem_declared (answered : Answers declared requests answers) {r : ExportDecl}
    (mem : r ∈ granted answers) : r.name ∈ declared := by
  obtain ⟨a, kept, rfl⟩ := List.mem_map.mp mem
  obtain ⟨here, free⟩ := List.mem_filter.mp kept
  obtain ⟨before, after, split⟩ := List.append_of_mem here
  have problem := answered.each before a after split
  by_contra unknown
  rw [ExportDecl.problem?_of_unknown unknown] at problem
  simp [problem] at free

/-- A request leads to an entry or to a diagnostic. -/
theorem length_eq (answered : Answers declared requests answers) (filename : Option String) :
    (granted answers).length + (answers.filterMap (·.diagnostic? filename)).length =
      requests.length := by
  rw [← answered.asked, List.length_map, granted, List.length_map]
  clear answered
  induction answers with
  | nil => rfl
  | cons a answers ih =>
    cases free : a.problem <;> simp [free, Answer.diagnostic?] at ih ⊢ <;> omega

theorem granted_of_free (free : ∀ a ∈ answers, a.problem = none) :
    granted answers = answers.map (·.request) := by
  rw [granted, List.filter_eq_self.mpr fun a mem => by simp [free a mem]]

/-- All requests are granted exactly if their targets are declared and their aliases differ. -/
theorem all_granted_iff (answered : Answers declared requests answers) :
    (∀ a ∈ answers, a.problem = none) ↔
      (∀ r ∈ requests, r.name ∈ declared) ∧ (requests.map (·.publicName)).Nodup := by
  induction answers using List.reverseRecOn generalizing requests with
  | nil =>
    obtain rfl := answered.asked
    simp
  | append_singleton answers a ih =>
    obtain ⟨first, last⟩ := answered.of_concat
    obtain rfl := answered.asked
    simp only [List.map_append, List.map_singleton, List.forall_mem_append,
      List.nodup_append, List.nodup_singleton, true_and,
      List.mem_singleton, forall_eq, ih first]
    -- the last request is granted if it is declared and differs from those before
    constructor
    · rintro ⟨⟨targets, distinct⟩, free⟩
      have kept := granted_of_free ((ih first).mpr ⟨targets, distinct⟩)
      rw [free, ExportDecl.problem?] at last
      split_ifs at last with unknown taken
      rw [kept] at taken
      exact ⟨⟨targets, unknown⟩, distinct, fun name mem same => taken (same ▸ mem)⟩
    · rintro ⟨⟨targets, target⟩, distinct, apart⟩
      have kept := granted_of_free ((ih first).mpr ⟨targets, distinct⟩)
      refine ⟨⟨targets, distinct⟩, ?_⟩
      rw [last, ExportDecl.problem?_of_free target]
      rw [kept]
      exact fun taken => apart _ taken rfl

end Answers

namespace Names

theorem addFunctions_eq (filename : Option String) (fs : List FunctionDecl) :
    fs.foldl (addFunction filename) {} =
      { functions := ⟨(firstDeclarations fs).map (·.entry)⟩
        diagnostics := (laterDeclarations fs).map (·.nameTaken filename) } := by
  induction fs using List.reverseRecOn with
  | nil => rfl
  | append_singleton fs f ih =>
    rw [List.foldl_append, List.foldl_cons, List.foldl_nil, ih, firstDeclarations_concat,
      laterDeclarations_concat]
    have keys : ((firstDeclarations fs).map (·.entry)).map Prod.fst =
        (firstDeclarations fs).map (·.name) := List.map_map
    unfold addFunction
    split
    next known =>
      rw [Table.contains_iff, keys, mem_names_firstDeclarations] at known
      simp [known, report, FunctionDecl.nameTaken]
    next new =>
      have fresh := mt Table.contains_iff.mpr new
      rw [Table.insert, Table.insertEntry_of_fresh fresh]
      rw [keys, mem_names_firstDeclarations] at fresh
      simp [fresh, FunctionDecl.entry]

/-- Requests are answered against the functions that are known. -/
theorem addExports_eq (filename : Option String) {n : Names} (new : n.exports = {})
    (requests : List ExportDecl) :
    ∃ answers, Answers (n.functions.entries.map Prod.fst) requests answers ∧
      requests.foldl (addExport filename) n =
        { n with
          exports := ⟨(granted answers).map (·.entry)⟩
          diagnostics := n.diagnostics ++ answers.filterMap (·.diagnostic? filename) } := by
  induction requests using List.reverseRecOn with
  | nil => exact ⟨[], .nil _, by rw [← List.append_nil n.diagnostics]; simp [← new, granted]⟩
  | append_singleton requests r ih =>
    obtain ⟨answers, answered, ran⟩ := ih
    refine ⟨_, answered.concat r, ?_⟩
    rw [List.foldl_append, List.foldl_cons, List.foldl_nil, ran]
    have keys : ((granted answers).map (·.entry)).map Prod.fst =
        (granted answers).map (·.publicName) := List.map_map
    unfold addExport
    dsimp only
    split
    next unknown =>
      rw [Bool.not_eq_true', ← Bool.not_eq_true, Table.contains_iff] at unknown
      simp [report, granted_concat, ExportDecl.problem?_of_unknown unknown, Answer.diagnostic?]
    next known =>
      rw [Bool.not_eq_true', Bool.not_eq_false, Table.contains_iff] at known
      split
      next taken =>
        rw [Table.contains_iff, keys] at taken
        simp [report, granted_concat, ExportDecl.problem?_of_taken known taken, Answer.diagnostic?]
      next free =>
        have fresh := mt Table.contains_iff.mpr free
        rw [Table.insert, Table.insertEntry_of_fresh fresh]
        rw [keys] at fresh
        simp [granted_concat, ExportDecl.problem?_of_free known fresh, Answer.diagnostic?,
          ExportDecl.entry]

end Names

/-- The export that a function asks for where it is declared. -/
def FunctionDecl.ownExport? (f : FunctionDecl) : Option ExportDecl :=
  f.exportAs.map fun publicName => ⟨f.name, publicName, f.span⟩

/-- The exports that a program asks for: those of the functions that have their names, and then the
separate ones. -/
def Program.exportRequests (p : Program) : List ExportDecl :=
  (firstDeclarations p.functions).filterMap (·.ownExport?) ++ p.exports

/-- The names of a program as its declarations and requests settle them, in their order. -/
structure Names.Settled (p : Program) (n : Names) : Prop where
  functions : n.functions.entries = (firstDeclarations p.functions).map (·.entry)
  lookup : ∀ name, n.functions.get? name = p.functions.find? fun f => f.name = name
  answered : ∃ answers, Answers (p.functions.map (·.name)) p.exportRequests answers ∧
    n.exports.entries = (granted answers).map (·.entry) ∧
    n.diagnostics = (laterDeclarations p.functions).map (·.nameTaken p.filename) ++
      answers.filterMap (·.diagnostic? p.filename)
  counted : n.functions.entries.length + n.exports.entries.length + n.diagnostics.length =
    p.functions.length + p.exportRequests.length
  targets : ∀ e ∈ n.exports.entries, n.functions.contains e.2 = true
  clean : n.diagnostics = [] ↔ (p.functions.map (·.name)).Nodup ∧
    (∀ r ∈ p.exportRequests, r.name ∈ p.functions.map (·.name)) ∧
    (p.exportRequests.map (·.publicName)).Nodup

/-- The names of a program, by its first declarations and the answers to its requests. -/
theorem Names.ofProgram_eq (p : Program) :
    ∃ answers, Answers (p.functions.map (·.name)) p.exportRequests answers ∧
      ofProgram p =
        { functions := ⟨(firstDeclarations p.functions).map (·.entry)⟩
          exports := ⟨(granted answers).map (·.entry)⟩
          diagnostics := (laterDeclarations p.functions).map (·.nameTaken p.filename) ++
            answers.filterMap (·.diagnostic? p.filename) } := by
  unfold ofProgram
  dsimp only
  rw [addFunctions_eq]
  generalize named : Names.mk _ _ _ = n
  have own : n.ownExports ++ p.exports = p.exportRequests := by
    rw [← named, ownExports, List.filterMap_map]
    rfl
  have known : ∀ name, name ∈ n.functions.entries.map Prod.fst ↔
      name ∈ p.functions.map (·.name) := by
    intro name
    rw [← mem_names_firstDeclarations, ← named, List.map_map]
    rfl
  obtain ⟨answers, answered, ran⟩ := addExports_eq p.filename (n := n) (by rw [← named])
    p.exportRequests
  refine ⟨answers, answered.of_mem_iff known, ?_⟩
  rw [own, ran, ← named]

theorem Names.ofProgram_settled (p : Program) : (ofProgram p).Settled p := by
  obtain ⟨answers, answered, names⟩ := ofProgram_eq p
  rw [names]
  refine ⟨rfl, fun name => ?_, ⟨answers, answered, rfl, rfl⟩, ?_, fun e mem => ?_, ?_⟩
  · rw [← find?_firstDeclarations]
    simp only [Table.get?, List.find?_map, Option.map_map]
    exact Option.map_id' ..
  · have functions := length_declarations p.functions
    have exports := answered.length_eq p.filename
    simp only [List.length_map, List.length_append]
    omega
  · obtain ⟨r, asked, rfl⟩ := List.mem_map.mp mem
    rw [Table.contains_iff, List.map_map]
    exact (mem_names_firstDeclarations _ _).mpr (answered.mem_declared asked)
  · have free : answers.filterMap (·.diagnostic? p.filename) = [] ↔
        ∀ a ∈ answers, a.problem = none := by
      simp [List.filterMap_eq_nil_iff, Answer.diagnostic?]
    rw [List.append_eq_nil_iff, List.map_eq_nil_iff, laterDeclarations_eq_nil_iff, free,
      answered.all_granted_iff]

/-- The diagnostic is about names. -/
def Diagnostic.isNaming (d : Diagnostic) : Bool := d.problem.code?.any (·.family = .res)

/-- What is reported about types is not about names. -/
theorem Program.TypingReport.not_naming {options : TypingOptions} {p : Program}
    {ds : List Diagnostic} (typing : p.TypingReport options ds) :
    ∀ d ∈ ds, d.isNaming = false := by
  intro d mem
  rcases typing with ⟨_, f, _, k, _, rfl⟩ | ⟨_, rfl⟩
  · rw [List.mem_singleton.mp mem]
    rfl
  · obtain ⟨f, _, warned⟩ := List.mem_filterMap.mp mem
    unfold FunctionDecl.openWarning? at warned
    split at warned
    next =>
      rw [Literal.eq_of_warning? warned]
      rfl
    next => cases warned

/-- An analysis keeps the names of its program, and reports their problems among others. -/
theorem Analysis.names_of_analyze {options : TypingOptions} {source : Source} {a : Analysis}
    {p : Program} (analyzed : (analyze options source).1 = .ok a) (program : a.program = some p) :
    Names.mk a.functions a.exports (a.diagnostics.filter Diagnostic.isNaming) =
      Names.ofProgram p := by
  obtain ⟨ds, parses⟩ := parses_of_program analyzed program
  obtain ⟨p', s, resolved, rfl, file, same, declared⟩ := resolve_run parses options
  obtain ⟨b, t, inferred, program', functions, exports, -⟩ :=
    infer_run (a := ofProgram p') rfl file declared (parses.placed same)
  obtain ⟨a', analyzed', reports⟩ := reports_of_parses parses s.options
  obtain rfl : a' = a := Except.ok.inj (analyzed'.symm.trans analyzed)
  unfold analyze conclude at analyzed
  rw [bind_of_ok resolved, inferred] at analyzed
  cases analyzed
  cases program'.symm.trans program
  have naming : ∀ d ∈ (Names.ofProgram p).diagnostics, d.isNaming = true := by
    intro d mem
    obtain ⟨-, problem, eq⟩ := Names.ofProgram_naming p d mem
    rw [Diagnostic.isNaming, eq]
    cases problem <;> rfl
  have reported : b.diagnostics.filter Diagnostic.isNaming = (Names.ofProgram p).diagnostics := by
    cases reports with
    | lexical _ none _ => cases none.symm.trans program
    | grammatical _ _ none _ => cases none.symm.trans program
    | read _ _ read _ _ _ typing diagnostics =>
      cases read.symm.trans program
      have diagnostics : b.diagnostics = _ := diagnostics
      rw [diagnostics, List.filter_append, List.filter_eq_self.mpr naming,
        List.filter_eq_nil_iff.mpr fun d mem => by simp [typing.not_naming d mem], List.append_nil]
  dsimp only
  rw [functions, exports, reported]
  rfl

/-- Names are settled in the order in which a program asks for them, and an analysis of any source
leaves and reports just that. -/
theorem Names.settled_in_order :
    (∀ p : Program, (ofProgram p).Settled p) ∧
    ∀ (c : Context) (source : Source) (a : Analysis) (p : Program),
      (c.analyze source).1 = .ok a → a.program = some p →
      Settled p ⟨a.functions, a.exports, a.diagnostics.filter Diagnostic.isNaming⟩ := by
  refine ⟨ofProgram_settled, fun c source a p analyzed program => ?_⟩
  obtain ⟨b, plain, rfl⟩ := Context.exists_analysis analyzed
  have names := Analysis.names_of_analyze plain program
  exact names ▸ ofProgram_settled p

/-- An alias that is another function's name, a later function of a taken name with an export of its
own, and an export of what is not declared. -/
def contestedNames : Source :=
  { text :=
      "export g as f export as f function f 1 export as k function f 2 export h function g 3" }

theorem Names.settled_in_order_contestedNames :
    ∃ a p, (({} : Context).analyze contestedNames).1 = .ok a ∧ a.program = some p ∧
      a.functions.entries.map Prod.fst = ["f", "g"] ∧ a.exports.entries = [("f", "f")] ∧
      (a.diagnostics.filter Diagnostic.isNaming).map (·.problem) =
        [.naming (.duplicateFunction "f"), .naming (.duplicateAlias "f"),
          .naming (.unknownExport "h")] ∧
      Settled p ⟨a.functions, a.exports, a.diagnostics.filter Diagnostic.isNaming⟩ := by
  have found : (({} : Context).analyze contestedNames).1.toOption.any (fun a =>
      a.program.isSome && decide (a.functions.entries.map Prod.fst = ["f", "g"]) &&
        decide (a.exports.entries = [("f", "f")]) &&
        decide ((a.diagnostics.filter Diagnostic.isNaming).map (·.problem) =
          [.naming (.duplicateFunction "f"), .naming (.duplicateAlias "f"),
            .naming (.unknownExport "h")])) = true := by decide +kernel
  cases analyzed : (({} : Context).analyze contestedNames).1 with
  | error e => simp [analyzed, Except.toOption] at found
  | ok a =>
    simp only [analyzed, Except.toOption, Option.any_some, Bool.and_eq_true,
      decide_eq_true_eq] at found
    obtain ⟨⟨⟨program, functions⟩, exports⟩, problems⟩ := found
    obtain ⟨p, program⟩ := Option.isSome_iff_exists.mp program
    exact ⟨a, p, rfl, program, functions, exports, problems,
      settled_in_order.2 _ _ a p analyzed program⟩

end ConstFun
