import ConstFun.Proofs.Exits
import ConstFun.Proofs.ModuleText

namespace ConstFun

/-- The characters that identifiers of WebAssembly text are made of. -/
def isIdchar (c : Char) : Bool :=
  decide ('!' ≤ c) && decide (c ≤ '~') && !"\",;()[]\x7b\x7d".toList.contains c

/-- Of the characters in words, identifiers may hold those in ASCII. -/
theorem isIdchar_iff_ascii {c : Char} (word : continuesWord c = true) :
    isIdchar c = true ↔ c.toNat < 128 := by
  have each : ∀ n < 128, continuesWord (Char.ofNat n) = true → isIdchar (Char.ofNat n) = true := by
    decide +kernel
  constructor
  · intro idchar
    simp only [isIdchar, Bool.and_eq_true, decide_eq_true_eq] at idchar
    have below : c.toNat ≤ '~'.toNat := idchar.1.2
    have last : '~'.toNat = 126 := rfl
    omega
  · intro ascii
    have same := each c.toNat ascii
    rw [Char.ofNat_toNat] at same
    exact same word

theorem IsWord.all_isIdchar_iff {name : List Char} (word : IsWord name) :
    name.all isIdchar = true ↔ ∀ c ∈ name, c.toNat < 128 := by
  rw [List.all_eq_true]
  exact forall₂_congr fun c mem => isIdchar_iff_ascii (word.continues mem)

/-- The characters that an identifier ends before. -/
def endsIdentifier (c : Char) : Bool := c == ' ' || c == '\n' || c == '(' || c == ')'

/-- What stands behind the dollar signs of a text. -/
def identifiers : List Char → List (List Char)
  | [] => []
  | c :: rest =>
    if c = '$' then rest.takeWhile (!endsIdentifier ·) :: identifiers rest else identifiers rest

section Identifiers

variable {text name : List Char} {stop : Char}

theorem identifiers_append_of_free (free : '$' ∉ text) (rest : List Char) :
    identifiers (text ++ rest) = identifiers rest := by
  induction text with
  | nil => rfl
  | cons c text ih =>
    rw [List.mem_cons, not_or] at free
    rw [List.cons_append, identifiers, if_neg (Ne.symm free.1), ih free.2]

theorem identifiers_of_free (free : '$' ∉ text) : identifiers text = [] := by
  have none_left := identifiers_append_of_free free []
  rwa [List.append_nil] at none_left

theorem takeWhile_append_stop {p : Char → Bool} (fails : p stop = false) (text rest : List Char) :
    (text ++ stop :: rest).takeWhile p = text.takeWhile p := by
  induction text with
  | nil => simp [fails]
  | cons c text ih => simp only [List.cons_append, List.takeWhile_cons, ih]

/-- No identifier goes on behind a character that ends one. -/
theorem identifiers_append_stop (ends : endsIdentifier stop = true) (text rest : List Char) :
    identifiers (text ++ stop :: rest) = identifiers text ++ identifiers rest := by
  have cut : ∀ text, (text ++ stop :: rest).takeWhile (!endsIdentifier ·) =
      text.takeWhile (!endsIdentifier ·) :=
    fun text => takeWhile_append_stop (by simp [ends]) text rest
  have other : '$' ∉ [stop] := by
    intro mem
    rw [← List.mem_singleton.mp mem] at ends
    exact absurd ends (by decide)
  induction text with
  | nil => exact identifiers_append_of_free other rest
  | cons c text ih =>
    rw [List.cons_append, identifiers, identifiers, ih, cut]
    split <;> rfl

theorem IsWord.not_endsIdentifier (word : IsWord name) {c : Char} (mem : c ∈ name) :
    endsIdentifier c = false := by
  have sign : endsIdentifier c = true → c ∈ textSigns := by
    simp only [endsIdentifier, Bool.or_eq_true, beq_iff_eq]
    rintro (((rfl | rfl) | rfl) | rfl) <;> decide
  exact Bool.eq_false_iff.mpr fun ends => word.no_sign (sign ends) mem

theorem identifiers_mangled (word : IsWord name) : identifiers ('$' :: name) = [name] := by
  have free : '$' ∉ name := word.no_sign (by decide)
  have whole : name.takeWhile (!endsIdentifier ·) = name := by
    refine List.takeWhile_eq_self_iff.mpr fun c mem => ?_
    rw [word.not_endsIdentifier mem]
    rfl
  rw [identifiers, if_pos rfl, identifiers_of_free free, whole]

/-- A text with one dollar sign, which stands before a word. -/
theorem identifiers_of_one {front rest : List Char} (free : '$' ∉ front) (word : IsWord name)
    (ends : endsIdentifier stop = true) (free' : '$' ∉ rest) :
    identifiers (front ++ '$' :: (name ++ stop :: rest)) = [name] := by
  have same : front ++ '$' :: (name ++ stop :: rest) = front ++ ('$' :: name ++ stop :: rest) := by
    simp
  rw [same, identifiers_append_of_free free, identifiers_append_stop ends,
    identifiers_mangled word, identifiers_of_free free', List.append_nil]

end Identifiers

/-- The identifiers of some lines. -/
def lineIdentifiers (lines : List String) : List (List Char) :=
  lines.flatMap fun line => identifiers line.toList

theorem lineIdentifiers_append (lines more : List String) :
    lineIdentifiers (lines ++ more) = lineIdentifiers lines ++ lineIdentifiers more :=
  List.flatMap_append

theorem lineIdentifiers_cons (line : String) (lines : List String) :
    lineIdentifiers (line :: lines) = identifiers line.toList ++ lineIdentifiers lines :=
  List.flatMap_cons

/-- No identifier goes on in the next line. -/
theorem identifiers_text (lines : List String) :
    identifiers (({} : Emitter).append lines).text.toList = lineIdentifiers lines := by
  have each : identifiers (['\n'].intercalate (lines.map String.toList)) =
      lineIdentifiers lines := by
    induction lines with
    | nil => rfl
    | cons line lines ih =>
      cases lines with
      | nil => simp [lineIdentifiers]
      | cons next lines =>
        rw [List.map_cons, List.map_cons, List.intercalate_cons_cons, List.append_assoc,
          List.singleton_append, identifiers_append_stop rfl, ← List.map_cons, ih]
        rfl
  rw [Emitter.toList_text, identifiers_append_stop rfl, each]
  exact List.append_nil _

section Lines

open Line

theorem identifiers_openModule {name : String} (word : IsWord name.toList) :
    identifiers (indentation 0 ++ s!"(module {mangle name}").toList = [name.toList] := by
  rw [toList_openModule]
  change identifiers ("(module ".toList ++ '$' :: name.toList) = [name.toList]
  rw [identifiers_append_of_free (by decide), identifiers_mangled word]

theorem identifiers_openFunction {name : String} (word : IsWord name.toList) (type : ValueType) :
    identifiers (indentation 1 ++ s!"(func {mangle name} (result {type.name})").toList =
      [name.toList] := by
  have free : '$' ∉ "(result ".toList ++ (type.name.toList ++ ")".toList) := by
    cases type <;> decide
  have front : '$' ∉ "  (func ".toList := by decide
  rw [toList_openFunction]
  exact identifiers_of_one front word rfl free

theorem identifiers_exportLine {entry : String × String} (publicName : IsWord entry.1.toList)
    (name : IsWord entry.2.toList) :
    identifiers (exportLine 1 entry).toList = [entry.2.toList] := by
  have free : '$' ∉ entry.1.toList := publicName.no_sign (by decide)
  have front : '$' ∉ "  (export \"".toList ++ entry.1.toList ++ "\" (func ".toList := by
    simp [free]
  have behind : '$' ∉ ")".toList := by decide
  have closes : endsIdentifier ')' = true := rfl
  rw [toList_exportLine, ← identifiers_of_one front name closes behind]
  simp

theorem lineIdentifiers_constant {c : Constant} (name : IsWord c.name.toList)
    (operand : '$' ∉ c.operand.toList) (source : '$' ∉ c.source.toList) :
    lineIdentifiers (c.lines 1) = [c.name.toList] := by
  have comment : identifiers (indentation 2 ++ s!";; {c.source}").toList = [] := by
    rw [toList_comment]
    exact identifiers_of_free (by simp [source])
  have constant : identifiers (indentation 2 ++ c.type.constant c.operand).toList = [] := by
    rw [toList_constant]
    refine identifiers_of_free ?_
    cases c.type <;> simp [ValueType.name, operand]
  have close : identifiers (indentation 1 ++ ")").toList = [] := by decide
  have last : lineIdentifiers [indentation 2 ++ c.type.constant c.operand,
      indentation 1 ++ ")"] = [] := by
    rw [lineIdentifiers_cons, lineIdentifiers_cons, constant, close]
    rfl
  unfold Constant.lines
  rw [List.cons_append, lineIdentifiers_cons, identifiers_openFunction name,
    lineIdentifiers_append, last]
  split
  next => rfl
  next =>
    rw [lineIdentifiers_cons, comment]
    rfl

theorem lineIdentifiers_module {name : String} {cs : List Constant}
    {exports : List (String × String)} (word : IsWord name.toList)
    (functions : ∀ c ∈ cs, lineIdentifiers (c.lines 1) = [c.name.toList])
    (words : ∀ e ∈ exports, IsWord e.1.toList ∧ IsWord e.2.toList) :
    lineIdentifiers (moduleLines 0 name cs exports) =
      (name :: cs.map (·.name) ++ exports.map Prod.snd).map String.toList := by
  have constants : lineIdentifiers (cs.flatMap (·.lines 1)) =
      (cs.map (·.name)).map String.toList := by
    rw [lineIdentifiers, List.flatMap_assoc, List.map_map, List.map_eq_flatMap]
    exact List.flatMap_congr functions
  have entries : lineIdentifiers (exports.map (exportLine 1)) =
      (exports.map Prod.snd).map String.toList := by
    rw [lineIdentifiers, List.flatMap_map, List.map_map, List.map_eq_flatMap]
    exact List.flatMap_congr fun e mem => identifiers_exportLine (words e mem).1 (words e mem).2
  have close : lineIdentifiers [indentation 0 ++ ")"] = [] := by decide
  unfold moduleLines
  rw [lineIdentifiers_append, lineIdentifiers_append, lineIdentifiers_cons, close, constants,
    entries, identifiers_openModule word]
  simp

end Lines

/-- The lines that are written for a program without errors name its module, its functions and
those that are exported. -/
theorem Analysis.Clean.lineIdentifiers_eq {options : TypingOptions} {a : Analysis} {p : Program}
    {s : Session} {source : Source} {ds : List Decl} {cs : List Constant}
    (clean : a.Clean options p s) (parses : source.Parses ds)
    (same : p.decls.map Decl.untyped = ds) (word : IsWord p.name.toList)
    (lowered : List.Forall₂ (fun f c => f.constant? (f.resolvedKind? options) = some c)
      p.functions cs) :
    lineIdentifiers (moduleLines 0 p.name cs a.exports.entries) =
      (p.name :: p.functions.map (·.name) ++ a.exports.entries.map Prod.snd).map String.toList := by
  have dollar : '$' ∉ numberChars := by decide
  have each : List.Forall₂ (fun f c => f.name = c.name ∧
      lineIdentifiers (c.lines 1) = [c.name.toList]) p.functions cs := by
    have members := (List.forall₂_and_left _ _).mpr ⟨fun f hf => hf, lowered⟩
    refine members.imp ?_
    rintro f c ⟨hf, constant⟩
    obtain ⟨named, operand, literal⟩ := parses.lowered_free dollar same hf constant
    have name : IsWord c.name.toList := named ▸ (parses.isWord_of_program same).1 f hf
    exact ⟨named.symm, lineIdentifiers_constant name operand literal⟩
  have names : p.functions.map (·.name) = cs.map (·.name) := by
    rw [← List.forall₂_eq_eq_eq, List.forall₂_map_left_iff, List.forall₂_map_right_iff]
    exact each.imp fun f c => And.left
  have lines : ∀ c ∈ cs, lineIdentifiers (c.lines 1) = [c.name.toList] := by
    have pairs := each.flip.imp fun c f both => And.intro both.2 both.1
    exact ((List.forall₂_and_left _ _).mp pairs).1
  have exports := fun e => parses.isWord_of_exports same clean.named (e := e)
  rw [← clean.exports] at exports
  rw [names, lineIdentifiers_module word lines exports]

theorem isWord_main : IsWord "main".toList := by
  have continues : ['a', 'i', 'n'].all continuesWord = true := by decide +kernel
  exact ⟨'m', ['a', 'i', 'n'], rfl, by decide +kernel, List.all_eq_true.mp continues⟩

/-- The identifiers of a text that is generated are the name of the module, those of the functions,
and those of the exported functions. Each is a word, and it is made of the characters that
identifiers may hold if and only if it is in ASCII. -/
theorem Context.identifiers_are_names {c : Context} {source : Source} {a : Analysis}
    {text : String} (main : source.moduleName = "main") (analyzed : (c.analyze source).1 = .ok a)
    (generated : (c.generate a).1 = .ok text) :
    ∃ p, a.program = some p ∧
      identifiers text.toList =
        ("main" :: p.functions.map (·.name) ++ a.exports.entries.map Prod.snd).map String.toList ∧
      ∀ name ∈ identifiers text.toList, IsWord name ∧
        (name.all isIdchar = true ↔ ∀ c ∈ name, c.toNat < 128) := by
  obtain ⟨g, generated⟩ := Generator.exists_of_conclude generated
  obtain ⟨p, program, errorless⟩ := Analysis.errorless_of_generate generated
  obtain ⟨ds, s, parses, name, _, same, clean⟩ :=
    Analysis.clean_of_context analyzed program errorless
  rw [main] at name
  have ends := clean.generate_emits parses same { settings := some c.log }
  unfold Ends at ends
  rw [generated] at ends
  obtain ⟨rfl, cs, lowered, emitted⟩ := ends
  have word : IsWord p.name.toList := name ▸ isWord_main
  have whole := clean.lineIdentifiers_eq parses same word lowered
  rw [← identifiers_text, name] at whole
  rw [emitted, name]
  refine ⟨p, program, whole, fun identifier mem => ?_⟩
  have isWord : IsWord identifier := by
    rw [whole, List.mem_map] at mem
    obtain ⟨named, here, rfl⟩ := mem
    rcases List.mem_append.mp here with own | exported
    · rcases List.mem_cons.mp own with rfl | function
      · exact isWord_main
      · obtain ⟨f, hf, rfl⟩ := List.mem_map.mp function
        exact (parses.isWord_of_program same).1 f hf
    · obtain ⟨e, entry, rfl⟩ := List.mem_map.mp exported
      rw [clean.exports] at entry
      exact (parses.isWord_of_exports same clean.named entry).2
  exact ⟨isWord, isWord.all_isIdchar_iff⟩

/-- A function whose name is not in ASCII. -/
def accentedName : Source := { text := "function é: i32 1" }

theorem Context.identifiers_are_names_accentedName :
    ∃ a text, (Context.analyze {} accentedName).1 = .ok a ∧
      (Context.generate {} a).1 = .ok text ∧
      identifiers text.toList = ["main".toList, "é".toList] ∧
      ∀ name ∈ identifiers text.toList, IsWord name ∧
        (name.all isIdchar = true ↔ ∀ c ∈ name, c.toNat < 128) := by
  have run : ((Context.analyze {} accentedName).1.toOption.bind fun a =>
      (Context.generate {} a).1.toOption).any (fun text =>
        decide (identifiers text.toList = ["main".toList, "é".toList])) = true := by
    decide +kernel
  cases analyzed : (Context.analyze {} accentedName).1 with
  | error e => simp [analyzed, Except.toOption] at run
  | ok a =>
    cases generated : (Context.generate {} a).1 with
    | error e => simp [analyzed, generated, Except.toOption] at run
    | ok text =>
      simp only [analyzed, generated, Except.toOption, Option.bind_some, Option.any_some,
        decide_eq_true_eq] at run
      obtain ⟨-, -, -, words⟩ := identifiers_are_names rfl analyzed generated
      exact ⟨a, text, rfl, generated, run, words⟩

/-- An identifier of a text that is generated may hold a character that none may hold. -/
theorem Context.identifier_beyond_ascii_accentedName :
    ((Context.analyze {} accentedName).1.toOption.bind fun a =>
        (Context.generate {} a).1.toOption).map (fun text => identifiers text.toList) =
      some ["main".toList, "é".toList] ∧ "é".toList.all isIdchar = false := by
  decide +kernel

end ConstFun
