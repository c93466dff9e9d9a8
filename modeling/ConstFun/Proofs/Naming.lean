import ConstFun.Proofs.Acceptance
import ConstFun.Proofs.Compilation

namespace ConstFun

namespace Names

variable {filename : Option String} {n : Names}

theorem addFunction_of_clean {f : FunctionDecl}
    (clean : (addFunction filename n f).diagnostics = []) :
    n.diagnostics = [] ∧ f.name ∉ n.functions.entries.map Prod.fst ∧
      addFunction filename n f =
        { n with functions := ⟨n.functions.entries ++ [(f.name, f)]⟩ } := by
  unfold addFunction at *
  split at clean
  next => simp [report] at clean
  next new =>
    have fresh := mt Table.contains_iff.mpr new
    rw [if_neg new, Table.insert, Table.insertEntry_of_fresh fresh]
    exact ⟨clean, fresh, rfl⟩

/-- If no function is reported, all of them are known, in their order and under different names. -/
theorem addFunctions_of_clean {fs : List FunctionDecl}
    (clean : (fs.foldl (addFunction filename) n).diagnostics = []) :
    n.diagnostics = [] ∧
      (n.functions.Distinct → (fs.foldl (addFunction filename) n).functions.Distinct) ∧
      fs.foldl (addFunction filename) n =
        { n with functions := ⟨n.functions.entries ++ fs.map fun f => (f.name, f)⟩ } := by
  induction fs using List.reverseRecOn with
  | nil => exact ⟨clean, id, by simp⟩
  | append_singleton fs f ih =>
    rw [List.foldl_append, List.foldl_cons, List.foldl_nil] at clean ⊢
    obtain ⟨before, fresh, added⟩ := addFunction_of_clean clean
    obtain ⟨first, distinct, known⟩ := ih before
    refine ⟨first, fun start => ?_, ?_⟩
    · rw [added]
      exact (distinct start).push fresh _
    · rw [added, known]
      simp

theorem addExport_of_clean {e : ExportDecl} (clean : (addExport filename n e).diagnostics = []) :
    n.diagnostics = [] ∧ e.name ∈ n.functions.entries.map Prod.fst ∧
      e.publicName ∉ n.exports.entries.map Prod.fst ∧
      addExport filename n e =
        { n with exports := ⟨n.exports.entries ++ [(e.publicName, e.name)]⟩ } := by
  unfold addExport at *
  split at clean
  next => simp [report] at clean
  next known =>
    split at clean
    next => simp [report] at clean
    next new =>
      have known' : n.functions.contains e.name = true := by simpa using known
      have fresh := mt Table.contains_iff.mpr new
      rw [if_neg known, if_neg new, Table.insert, Table.insertEntry_of_fresh fresh]
      exact ⟨clean, Table.contains_iff.mp known', fresh, rfl⟩

/-- If no export is reported, all of them are known, in their order and under different names, and
each is of a function. -/
theorem addExports_of_clean {es : List ExportDecl}
    (clean : (es.foldl (addExport filename) n).diagnostics = []) :
    n.diagnostics = [] ∧
      (n.exports.Distinct → (es.foldl (addExport filename) n).exports.Distinct) ∧
      (∀ e ∈ es, e.name ∈ n.functions.entries.map Prod.fst) ∧
      es.foldl (addExport filename) n =
        { n with exports := ⟨n.exports.entries ++ es.map fun e => (e.publicName, e.name)⟩ } := by
  induction es using List.reverseRecOn with
  | nil => exact ⟨clean, id, by simp, by simp⟩
  | append_singleton es e ih =>
    rw [List.foldl_append, List.foldl_cons, List.foldl_nil] at clean ⊢
    obtain ⟨before, target, fresh, added⟩ := addExport_of_clean clean
    obtain ⟨first, distinct, targets, known⟩ := ih before
    refine ⟨first, fun start => ?_, ?_, ?_⟩
    · rw [added]
      exact (distinct start).push fresh _
    · intro e' mem
      rcases List.mem_append.mp mem with mem | mem
      · exact targets e' mem
      · rw [List.mem_singleton.mp mem]
        rw [known] at target
        exact target
    · rw [added, known]
      simp

/-- The exports that a program asks for: those of its functions, then the separate ones. -/
def requests (p : Program) : List ExportDecl :=
  (p.functions.filterMap fun f => f.exportAs.map fun publicName => ⟨f.name, publicName, f.span⟩) ++
    p.exports

/-- The names of a program without problems are distinct, and its exports are of its functions. -/
theorem ofProgram_of_clean {p : Program} (clean : (ofProgram p).diagnostics = []) :
    (p.functions.map (·.name)).Nodup ∧
      (ofProgram p).exports.entries = (requests p).map (fun e => (e.publicName, e.name)) ∧
      ((ofProgram p).exports.entries.map Prod.fst).Nodup ∧
      ∀ e ∈ (ofProgram p).exports.entries, e.2 ∈ p.functions.map (·.name) := by
  unfold ofProgram at *
  dsimp only at *
  obtain ⟨none, distinct, targets, exports⟩ := addExports_of_clean clean
  obtain ⟨_, distinct', functions⟩ := addFunctions_of_clean none
  have distinct' := distinct' Table.distinct_empty
  simp only [List.nil_append] at functions
  rw [functions] at distinct' distinct targets exports ⊢
  have own : ownExports { functions := ⟨p.functions.map fun f => (f.name, f)⟩ } ++ p.exports =
      requests p := by
    simp [ownExports, requests, List.filterMap_map]
  have names : (p.functions.map fun f => (f.name, f)).map Prod.fst =
      p.functions.map (·.name) := by
    rw [List.map_map]
    rfl
  rw [own] at distinct targets exports ⊢
  have listed := distinct Table.distinct_empty
  have entries := congrArg (·.exports.entries) exports
  simp only [List.nil_append] at entries
  refine ⟨names ▸ distinct', entries, listed, fun e mem => ?_⟩
  rw [entries] at mem
  obtain ⟨request, asked, rfl⟩ := List.mem_map.mp mem
  exact names ▸ targets request asked

end Names

/-- The names of functions and exports that a declaration holds. -/
def Decl.names : Decl → List String
  | .function f => f.name :: f.exportAs.toList
  | .exportOf e => [e.name, e.publicName]

theorem Decl.names_bare (d : Decl) : d.bare.names = d.names := by
  cases d <;> rfl

theorem Decl.names_untyped (d : Decl) : d.untyped.names = d.names := by
  rw [← d.untyped.names_bare, d.bare_untyped, d.names_bare]

theorem ItemForm.name_mem {i : ItemForm} {name : String} (mem : name ∈ i.decl.names) :
    .name name ∈ i.terminals := by
  cases i with
  | exportName target publicName =>
    cases publicName <;> simp_all [decl, Decl.names, terminals, aliasTerminals]
  | _ =>
    simp [decl, Decl.names, FunctionForm.decl, terminals, FunctionForm.terminals] at mem ⊢
    tauto

/-- The names of a source that parses are words. -/
theorem Source.Parses.isWord {source : Source} {ds : List Decl} (parses : source.Parses ds)
    {d : Decl} (mem : d ∈ ds) {name : String} (named : name ∈ d.names) : IsWord name.toList := by
  obtain ⟨tokens, rest, lexed, parsed⟩ := parses.parsed
  obtain ⟨forms, derives, decls⟩ := derives_of_items parsed
  -- the name stands in a form, so it is the text of a token
  have bare : d.bare ∈ forms.map ItemForm.decl := decls ▸ List.mem_map_of_mem mem
  obtain ⟨form, here, same⟩ := List.mem_map.mp bare
  rw [← d.names_bare, ← same] at named
  have terminal : .name name ∈ forms.flatMap ItemForm.terminals :=
    List.mem_flatMap.mpr ⟨form, here, ItemForm.name_mem named⟩
  rw [← derives] at terminal
  obtain ⟨t, before, eq⟩ := List.mem_map.mp terminal
  obtain ⟨ident, rfl⟩ := Token.terminal_eq_name.mp eq
  exact (spelled_of_tokenize lexed ((List.takeWhile_sublist _).subset before)).name ident

/-- The names in a program of a source that parses are words. -/
theorem Source.Parses.isWord_of_program {source : Source} {ds : List Decl}
    (parses : source.Parses ds) {p : Program} (same : p.decls.map Decl.untyped = ds) :
    (∀ f ∈ p.functions, IsWord f.name.toList) ∧
      ∀ e ∈ Names.requests p, IsWord e.publicName.toList := by
  have word : ∀ d ∈ p.decls, ∀ name ∈ d.names, IsWord name.toList := by
    intro d mem name named
    rw [← d.names_untyped] at named
    exact parses.isWord (same ▸ List.mem_map_of_mem mem) named
  have functions : ∀ f ∈ p.functions, ∀ name ∈ (Decl.function f).names, IsWord name.toList :=
    fun f hf => word _ (Program.mem_functions.mp hf)
  refine ⟨fun f hf => functions f hf _ (by simp [Decl.names]), fun e asked => ?_⟩
  rcases List.mem_append.mp asked with own | separate
  · obtain ⟨f, hf, eq⟩ := List.mem_filterMap.mp own
    obtain ⟨publicName, exported, rfl⟩ := Option.map_eq_some_iff.mp eq
    exact functions f hf _ (by simp [Decl.names, exported])
  · exact word _ (Program.mem_exports.mp separate) _ (by simp [Decl.names])

/-- The exports of a program without problems are words, of functions whose names are words. -/
theorem Source.Parses.isWord_of_exports {source : Source} {ds : List Decl}
    (parses : source.Parses ds) {p : Program} (same : p.decls.map Decl.untyped = ds)
    (clean : (Names.ofProgram p).diagnostics = []) {e : String × String}
    (mem : e ∈ (Names.ofProgram p).exports.entries) : IsWord e.1.toList ∧ IsWord e.2.toList := by
  obtain ⟨functions, requests⟩ := parses.isWord_of_program same
  obtain ⟨_, requested, _, targets⟩ := Names.ofProgram_of_clean clean
  obtain ⟨f, hf, target⟩ := List.mem_map.mp (targets e mem)
  rw [requested] at mem
  obtain ⟨request, asked, rfl⟩ := List.mem_map.mp mem
  exact ⟨requests request asked, target ▸ functions f hf⟩

end ConstFun
