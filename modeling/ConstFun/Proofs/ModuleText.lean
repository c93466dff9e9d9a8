import ConstFun.Proofs.IntegerConstants
import ConstFun.Proofs.Naming

namespace ConstFun

/-- A line of a module's text. -/
inductive Line where
  | openModule (name : String)
  | openFunction (name : String) (type : ValueType)
  | comment (text : String)
  | constant (type : ValueType) (operand : String)
  | closeFunction
  | exported (publicName name : String)
  | closeModule
  deriving DecidableEq, Repr

/-- What is read of a function: its constant, and the text above it if one stands there. -/
structure FunctionRecord where
  name : String
  type : ValueType
  operand : String
  comment : Option String
  deriving DecidableEq, Repr

structure ModuleRecord where
  name : String
  functions : List FunctionRecord
  exports : List (String × String)
  deriving DecidableEq, Repr

/-- Splits a text before the first place where a character stands. -/
def splitBefore (stop : Char) (text : List Char) : List Char × List Char :=
  (text.takeWhile (· ≠ stop), text.dropWhile (· ≠ stop))

namespace Line

/-- Reads a line; its first characters tell which one it is. -/
def read? (line : List Char) : Option Line :=
  match line with
  | '(' :: _ => do
    let name ← line.dropPrefix? "(module $".toList
    return .openModule (String.ofList name)
  | ' ' :: ' ' :: '(' :: 'f' :: _ => do
    let (name, rest) := splitBefore ' ' (← line.dropPrefix? "  (func $".toList)
    let type ← (← rest.dropPrefix? " (result ".toList).dropSuffix? ")".toList
    return .openFunction (String.ofList name) (← ValueType.ofName? (String.ofList type))
  | ' ' :: ' ' :: ' ' :: ' ' :: ';' :: _ => do
    let text ← line.dropPrefix? "    ;; ".toList
    return .comment (String.ofList text)
  | ' ' :: ' ' :: ' ' :: ' ' :: rest => do
    let (type, rest) := splitBefore '.' rest
    let operand ← rest.dropPrefix? ".const ".toList
    return .constant (← ValueType.ofName? (String.ofList type)) (String.ofList operand)
  | [' ', ' ', ')'] => some .closeFunction
  | ' ' :: ' ' :: '(' :: 'e' :: _ => do
    let (publicName, rest) := splitBefore '"' (← line.dropPrefix? "  (export \"".toList)
    let name ← (← rest.dropPrefix? "\" (func $".toList).dropSuffix? "))".toList
    return .exported (String.ofList publicName) (String.ofList name)
  | [')'] => some .closeModule
  | _ => none

theorem read?_closeFunction : read? (indentation 1 ++ ")").toList = some .closeFunction := by
  simp [indentation, read?]

theorem read?_closeModule : read? (indentation 0 ++ ")").toList = some .closeModule := by
  simp [indentation, read?]

/-- Takes the functions at the front of some lines. -/
def readFunctions? : List Line → Option (List FunctionRecord × List Line)
  | .openFunction name type :: .comment text :: .constant type' operand :: .closeFunction ::
      lines => do
    guard (type' = type)
    let (functions, rest) ← readFunctions? lines
    return (⟨name, type, operand, some text⟩ :: functions, rest)
  | .openFunction name type :: .constant type' operand :: .closeFunction :: lines => do
    guard (type' = type)
    let (functions, rest) ← readFunctions? lines
    return (⟨name, type, operand, none⟩ :: functions, rest)
  | lines => some ([], lines)

/-- Takes the exports up to the end of a module, after which nothing may stand. -/
def readExports? : List Line → Option (List (String × String))
  | [.closeModule] => some []
  | .exported publicName name :: lines => do return (publicName, name) :: (← readExports? lines)
  | _ => none

end Line

namespace ModuleRecord

def ofLines? : List Line → Option ModuleRecord
  | .openModule name :: lines => do
    let (functions, rest) ← Line.readFunctions? lines
    return ⟨name, functions, ← Line.readExports? rest⟩
  | _ => none

/-- Reads a text of which each line ends with a line feed. -/
def read? (text : String) : Option ModuleRecord := do
  let lines := (← text.toList.dropSuffix? ['\n']).splitOn '\n'
  ofLines? (← lines.mapM Line.read?)

end ModuleRecord

/-- What is read of a function's lines. -/
def Constant.record (c : Constant) : FunctionRecord :=
  ⟨c.name, c.type, c.operand, if c.operand = c.source then none else some c.source⟩

/-- The lines of a function, as they are read. -/
def Constant.readLines (c : Constant) : List Line :=
  .openFunction c.name c.type :: (c.record.comment.map Line.comment).toList ++
    [.constant c.type c.operand, .closeFunction]

def Line.ofExport (entry : String × String) : Line := .exported entry.1 entry.2

/-- The lines of a module, as they are read. -/
def readModuleLines (name : String) (cs : List Constant) (exports : List (String × String)) :
    List Line :=
  .openModule name :: cs.flatMap Constant.readLines ++ exports.map Line.ofExport ++ [.closeModule]

/-- The signs that stand around words in the text of a module. -/
def textSigns : List Char := ['\n', ' ', '"', '$', '(', ')']

theorem IsWord.no_sign {text : List Char} (word : IsWord text) {c : Char} (sign : c ∈ textSigns) :
    c ∉ text := by
  simp only [textSigns, List.mem_cons, List.not_mem_nil, or_false] at sign
  rcases sign with rfl | rfl | rfl | rfl | rfl | rfl <;> exact word.not_mem_of_ascii (by decide)

theorem IsWord.plain {text : List Char} (word : IsWord text) : '\n' ∉ text :=
  word.no_sign (by decide)

theorem ValueType.name_plain (type : ValueType) : '\n' ∉ type.name.toList := by
  cases type <;> decide

namespace Line

theorem dropSuffix?_append (rest after : List Char) :
    (rest ++ after).dropSuffix? after = some rest :=
  List.dropSuffix?_eq_some_iff.mpr ⟨after, rfl, beq_self_eq_true after⟩

theorem splitBefore_append {stop : Char} {word : List Char} (free : stop ∉ word)
    (rest : List Char) : splitBefore stop (word ++ stop :: rest) = (word, stop :: rest) := by
  have other : ∀ c ∈ word, decide (c ≠ stop) = true := by
    intro c mem
    apply decide_eq_true
    rintro rfl
    exact free mem
  unfold splitBefore
  rw [List.takeWhile_append_of_pos other, List.dropWhile_append_of_pos other]
  simp

theorem toList_openModule (name : String) :
    (indentation 0 ++ s!"(module {mangle name}").toList = "(module $".toList ++ name.toList := by
  simp [indentation, mangle, toString]

theorem toList_openFunction (name : String) (type : ValueType) :
    (indentation 1 ++ s!"(func {mangle name} (result {type.name})").toList =
      "  (func $".toList ++ (name.toList ++ ' ' :: ("(result ".toList ++
        (type.name.toList ++ ")".toList))) := by
  simp [indentation, mangle, toString]

theorem toList_comment (text : String) :
    (indentation 2 ++ s!";; {text}").toList = "    ;; ".toList ++ text.toList := by
  simp [indentation, toString]

theorem toList_constant (type : ValueType) (operand : String) :
    (indentation 2 ++ type.constant operand).toList =
      "    ".toList ++ (type.name.toList ++ '.' :: ("const ".toList ++ operand.toList)) := by
  simp [indentation, ValueType.constant, toString]

theorem toList_exportLine (entry : String × String) :
    (exportLine 1 entry).toList =
      "  (export \"".toList ++ (entry.1.toList ++ '"' :: (" (func $".toList ++
        (entry.2.toList ++ "))".toList))) := by
  simp [exportLine, indentation, mangle, toString]

/-- The text is one line, and is read as this one. -/
structure Spells (text : String) (line : Line) : Prop where
  plain : '\n' ∉ text.toList
  read : read? text.toList = some line

theorem spells_openModule {name : String} (plain : '\n' ∉ name.toList) :
    Spells (indentation 0 ++ s!"(module {mangle name}") (.openModule name) := by
  constructor <;> rw [toList_openModule]
  · simp [plain]
  · simp [read?, List.dropPrefix?]

theorem spells_openFunction {name : String} (word : IsWord name.toList) (type : ValueType) :
    Spells (indentation 1 ++ s!"(func {mangle name} (result {type.name})")
      (.openFunction name type) := by
  have blank : ' ' ∉ name.toList := word.no_sign (by decide)
  constructor <;> rw [toList_openFunction]
  · simp [word.plain, type.name_plain]
  · simp [read?, List.dropPrefix?, splitBefore_append blank, dropSuffix?_append,
      ValueType.ofName?_name]

theorem spells_comment {text : String} (plain : '\n' ∉ text.toList) :
    Spells (indentation 2 ++ s!";; {text}") (.comment text) := by
  constructor <;> rw [toList_comment]
  · simp [plain]
  · simp [read?, List.dropPrefix?]

theorem spells_constant {operand : String} (plain : '\n' ∉ operand.toList) (type : ValueType) :
    Spells (indentation 2 ++ type.constant operand) (.constant type operand) := by
  constructor <;> rw [toList_constant]
  · simp [plain, type.name_plain]
  · -- a type's name does not start as a comment does
    cases type <;> simp [read?, List.dropPrefix?, splitBefore, ValueType.name, ValueType.ofName?,
      ValueType.all]

theorem spells_exported {entry : String × String} (publicName : IsWord entry.1.toList)
    (name : IsWord entry.2.toList) : Spells (exportLine 1 entry) (ofExport entry) := by
  have quote : '"' ∉ entry.1.toList := publicName.no_sign (by decide)
  constructor <;> rw [toList_exportLine]
  · simp [publicName.plain, name.plain]
  · simp [read?, List.dropPrefix?, splitBefore_append quote, dropSuffix?_append, ofExport]

theorem spells_close {level : Nat} {line : Line}
    (read : read? (indentation level ++ ")").toList = some line) :
    Spells (indentation level ++ ")") line := by
  refine ⟨?_, read⟩
  simp [indentation]

/-- The lines of a function are read one by one. -/
theorem spells_function {c : Constant} (name : IsWord c.name.toList)
    (operand : '\n' ∉ c.operand.toList) (source : '\n' ∉ c.source.toList) :
    List.Forall₂ Spells (c.lines 1) c.readLines := by
  have constant := spells_constant operand c.type
  have close : Spells (indentation 1 ++ ")") .closeFunction := spells_close read?_closeFunction
  unfold Constant.lines Constant.readLines Constant.record
  refine .cons (spells_openFunction name c.type) ?_
  split
  next => exact .cons constant (.cons close .nil)
  next => exact .cons (spells_comment source) (.cons constant (.cons close .nil))

/-- The lines of a module are read one by one. -/
theorem spells_module {name : String} {cs : List Constant} {exports : List (String × String)}
    (plain : '\n' ∉ name.toList)
    (functions : ∀ c ∈ cs, List.Forall₂ Spells (c.lines 1) c.readLines)
    (words : ∀ e ∈ exports, IsWord e.1.toList ∧ IsWord e.2.toList) :
    List.Forall₂ Spells (moduleLines 0 name cs exports) (readModuleLines name cs exports) := by
  have constants : List.Forall₂ Spells (cs.flatMap (·.lines 1))
      (cs.flatMap Constant.readLines) := by
    have same : List.Forall₂ (fun c c' => c = c' ∧ c ∈ cs) cs cs :=
      List.forall₂_same.mpr fun c mem => ⟨rfl, mem⟩
    refine List.rel_flatMap same ?_
    rintro c _ ⟨rfl, mem⟩
    exact functions c mem
  have entries : List.Forall₂ Spells (exports.map (exportLine 1)) (exports.map ofExport) := by
    rw [List.forall₂_map_left_iff, List.forall₂_map_right_iff, List.forall₂_same]
    intro e mem
    exact spells_exported (words e mem).1 (words e mem).2
  have close : Spells (indentation 0 ++ ")") .closeModule := spells_close read?_closeModule
  exact .cons (spells_openModule plain)
    (List.rel_append (List.rel_append constants entries) (.cons close .nil))

theorem readFunctions?_readLines (c : Constant) {lines rest : List Line}
    {functions : List FunctionRecord} (more : readFunctions? lines = some (functions, rest)) :
    readFunctions? (c.readLines ++ lines) = some (c.record :: functions, rest) := by
  unfold Constant.readLines Constant.record
  split <;> simp [readFunctions?, more]

/-- The functions are read up to a line that starts none. -/
theorem readFunctions?_flatMap (cs : List Constant) {lines : List Line}
    (done : readFunctions? lines = some ([], lines)) :
    readFunctions? (cs.flatMap Constant.readLines ++ lines) =
      some (cs.map Constant.record, lines) := by
  induction cs with
  | nil => exact done
  | cons c cs ih =>
    rw [List.flatMap_cons, List.append_assoc, readFunctions?_readLines c ih, List.map_cons]

theorem readExports?_map (exports : List (String × String)) :
    readExports? (exports.map ofExport ++ [.closeModule]) = some exports := by
  induction exports with
  | nil => rfl
  | cons e exports ih => simp [ofExport, readExports?, ih]

theorem mapM_read? {texts : List String} {lines : List Line}
    (spelled : List.Forall₂ Spells texts lines) :
    (texts.map String.toList).mapM read? = some lines := by
  induction spelled with
  | nil => rfl
  | cons first _ ih => simp [first.read, ih]

end Line

theorem Emitter.toList_text (lines : List String) :
    (({} : Emitter).append lines).text.toList =
      ['\n'].intercalate (lines.map String.toList) ++ ['\n'] := by
  simp [text, append, String.toList_intercalate]

namespace ModuleRecord

open Line

theorem ofLines?_readModuleLines (name : String) (cs : List Constant)
    (exports : List (String × String)) :
    ofLines? (readModuleLines name cs exports) =
      some ⟨name, cs.map Constant.record, exports⟩ := by
  have done : readFunctions? (exports.map ofExport ++ [.closeModule]) =
      some ([], exports.map ofExport ++ [.closeModule]) := by
    cases exports <;> rfl
  simp only [readModuleLines, ofLines?, List.cons_append, List.append_assoc,
    readFunctions?_flatMap cs done]
  simp [readExports?_map]

/-- The text of some lines is read line by line. -/
theorem read?_of_spells {texts : List String} {lines : List Line}
    (spelled : List.Forall₂ Spells texts lines) (first : texts ≠ []) :
    read? (({} : Emitter).append texts).text = ofLines? lines := by
  have parts : texts.map String.toList ≠ [] := by simpa using first
  have plain : ∀ part ∈ texts.map String.toList, '\n' ∉ part := by
    have each := spelled.imp fun text line h => And.intro h.plain h
    rw [List.forall₂_and_left] at each
    simpa using each.1
  unfold read?
  rw [Emitter.toList_text, dropSuffix?_append, Option.bind_eq_bind, Option.bind_some]
  rw [List.splitOn_intercalate _ plain parts]
  dsimp only
  rw [mapM_read? spelled, Option.bind_eq_bind, Option.bind_some]

/-- What is written of a module is read back. -/
theorem read?_moduleLines {name : String} {cs : List Constant} {exports : List (String × String)}
    (plain : '\n' ∉ name.toList)
    (functions : ∀ c ∈ cs, List.Forall₂ Spells (c.lines 1) c.readLines)
    (words : ∀ e ∈ exports, IsWord e.1.toList ∧ IsWord e.2.toList) :
    read? (({} : Emitter).append (moduleLines 0 name cs exports)).text =
      some ⟨name, cs.map Constant.record, exports⟩ := by
  have spelled := spells_module plain functions words
  rw [read?_of_spells spelled (by simp [moduleLines]), ofLines?_readModuleLines]

end ModuleRecord

/-- The characters that numbers are written with, and the one that stands for a digit beyond
them. -/
def numberChars : List Char :=
  ['0', '1', '2', '3', '4', '5', '6', '7', '8', '9', 'a', 'b', 'c', 'd', 'e', 'f', '*', 'i', 'n',
    'p', 'x', '.', '+', '-']

section Numbers

variable {stop : Char} (other : stop ∉ numberChars)

include other

theorem not_mem_of_subset {text : List Char} (within : text ⊆ numberChars) : stop ∉ text :=
  fun mem => other (within mem)

theorem digitChar_ne_of_free (d : Nat) : d.digitChar ≠ stop := by
  have apart : ∀ c ∈ numberChars, stop ≠ c := by
    rintro c mem rfl
    exact other mem
  refine Nat.digitChar_ne stop ?_
  simp only [Bool.and_eq_true, bne_iff_ne]
  and_intros <;> exact apart _ (by decide)

theorem repr_free (n : Nat) : stop ∉ n.repr.toList := by
  rw [Nat.toList_repr]
  intro mem
  obtain ⟨d, same⟩ := exists_digitChar_of_mem_toDigits (by decide) mem
  exact digitChar_ne_of_free other d same.symm

theorem toString_free (v : ℤ) : stop ∉ (toString v).toList := by
  cases v with
  | ofNat n => exact repr_free other n
  | negSucc n =>
    have text : toString (Int.negSucc n) = "-" ++ (n + 1).repr := rfl
    have sign : stop ∉ "-".toList := not_mem_of_subset other (by decide)
    rw [text, String.toList_append, List.mem_append, not_or]
    exact ⟨sign, repr_free other (n + 1)⟩

theorem Binary64.signText_free (negative : Bool) : stop ∉ (signText negative).toList :=
  not_mem_of_subset other (by revert negative; decide)

theorem Binary64.hex_free (d : Binary64) : stop ∉ d.hex.toList := by
  have digits := not_mem_hexDigits (digitChar_ne_of_free other) 13
  cases d with
  | nan => exact not_mem_of_subset other (by decide)
  | infinite negative =>
    simp only [hex, String.toList_append, List.mem_append, not_or]
    exact ⟨signText_free other negative, not_mem_of_subset other (by decide)⟩
  | finite negative mantissa exponent =>
    unfold hex
    dsimp only
    rw [String.toList_append, List.mem_append, not_or]
    refine ⟨signText_free other negative, ?_⟩
    split
    next => exact not_mem_of_subset other (by decide)
    next =>
      split
      next =>
        simp only [String.toList_append, List.mem_append, not_or]
        exact ⟨⟨not_mem_of_subset other (by decide), digits _⟩,
          not_mem_of_subset other (by decide)⟩
      next =>
        have start : stop ∉ "0x1.".toList := not_mem_of_subset other (by decide)
        have mark : stop ∉ "p".toList := not_mem_of_subset other (by decide)
        have direction : stop ∉ (if exponent + 52 < 0 then "-" else "+").toList := by
          split <;> exact not_mem_of_subset other (by decide)
        have power : stop ∉ (toString (exponent + 52).natAbs).toList := repr_free other _
        simp only [String.toList_append, List.mem_append, not_or]
        exact ⟨⟨⟨⟨start, digits _⟩, mark⟩, direction⟩, power⟩

theorem ValueType.operand_free {t : ValueType} {value : LiteralValue} {operand : String}
    (written : t.operand value = .ok operand) : stop ∉ operand.toList := by
  cases t with
  | i32 | i64 =>
    cases integer : value.toInteger with
    | error e =>
      rw [ValueType.operand, integer] at written
      cases written
    | ok v =>
      rw [ValueType.operand, integer] at written
      cases written
      exact toString_free other v
  | f32 | f64 =>
    cases double : value.toDouble with
    | error e =>
      rw [ValueType.operand, double] at written
      cases written
    | ok d =>
      rw [ValueType.operand, double] at written
      cases written
      exact d.hex_free other

/-- What a function of a source that parses is lowered to holds its name and two numbers. -/
theorem Source.Parses.lowered_free {source : Source} {ds : List Decl} (parses : source.Parses ds)
    {p : Program} (same : p.decls.map Decl.untyped = ds) {f : FunctionDecl}
    (hf : f ∈ p.functions) {kind : Option Kind} {c : Constant}
    (lowered : f.constant? kind = some c) :
    c.name = f.name ∧ stop ∉ c.operand.toList ∧ stop ∉ c.source.toList := by
  rw [← f.constant?_untyped] at lowered
  obtain ⟨l, value, k, body, _, _, _, _, written, name, source⟩ :=
    FunctionDecl.lowered_of_constant? lowered
  obtain ⟨l', n, body', text, _⟩ := parses.numeral (same ▸ Program.untyped_mem hf)
  obtain rfl : l = l' := Body.literal.inj (body.symm.trans body')
  have number : ∀ c ∈ n.chars, c ∈ numberChars :=
    n.forall_mem_chars (by decide) (by decide) (by decide)
  refine ⟨name.trans f.name_untyped, ValueType.operand_free other written, ?_⟩
  rw [source, text, Numeral.text, String.toList_ofList]
  exact fun mem => other (number stop mem)

end Numbers

/-- The constants of a source that parses are written in lines that can be read. -/
theorem Source.Parses.spells {source : Source} {ds : List Decl} (parses : source.Parses ds)
    {p : Program} (same : p.decls.map Decl.untyped = ds) {f : FunctionDecl}
    (hf : f ∈ p.functions) {kind : Option Kind} {c : Constant}
    (lowered : f.constant? kind = some c) : List.Forall₂ Line.Spells (c.lines 1) c.readLines := by
  have word := (parses.isWord_of_program same).1 f hf
  have feed : '\n' ∉ numberChars := by decide
  obtain ⟨name, operand, source⟩ := parses.lowered_free feed same hf lowered
  exact Line.spells_function (name ▸ word) operand source

/-- The record holds the function's name, the value type of the kind that was found for its body,
and the operand of its value; the body's text stands above where the operand reads differently. -/
def FunctionDecl.WrittenAs (s : Session) (f : FunctionDecl) (r : FunctionRecord) : Prop :=
  ∃ l h t k value, f.body = .literal l ∧ l.type = some h ∧
    Session.reifyKind h s = .ok (some k) t ∧ literalValue l.text l.isDecimal = .ok value ∧
    r.name = f.name ∧ k.valueType? = some r.type ∧ r.type.operand value = .ok r.operand ∧
    r.comment = if r.operand = l.text then none else some l.text

namespace Analysis

variable {options : TypingOptions} {a : Analysis}

theorem Clean.writtenAs {p : Program} {s : Session} (clean : a.Clean options p s)
    {f : FunctionDecl} (hf : f ∈ p.functions) {c : Constant}
    (lowered : f.constant? (f.resolvedKind? options) = some c) : f.WrittenAs s c.record := by
  obtain ⟨l, value, k, body, read, kind, _, type, written, name, source⟩ :=
    FunctionDecl.lowered_of_constant? lowered
  obtain ⟨h, t, typed, found⟩ := clean.resolved.exists_kind hf
  rw [clean.flags, kind] at found
  rw [body] at typed
  refine ⟨l, h, t, k, value, body, typed, found, read, name, type, written, ?_⟩
  simp [Constant.record, source]

/-- The text that is generated for a source is read as the module's name, the functions of the
program in their order, and the exports. Functions have different names, and so have exports, each
of which is of one of the functions. -/
theorem generated_text_determines {c : Context} {source : Source} {text : String} {g : Generator}
    (plain : '\n' ∉ source.moduleName.toList) (analyzed : (c.analyze source).1 = .ok a)
    (generated : a.generate { settings := some c.log } = .ok text g) :
    ∃ p s records, a.program = some p ∧ a.session = some s ∧
      ModuleRecord.read? text = some ⟨source.moduleName, records, a.exports.entries⟩ ∧
      List.Forall₂ (·.WrittenAs s) p.functions records ∧
      (records.map (·.name)).Nodup ∧ (a.exports.entries.map Prod.fst).Nodup ∧
      (∀ e ∈ a.exports.entries, e.2 ∈ records.map (·.name)) ∧ g.emitter.level = 0 := by
  obtain ⟨p, program, errorless⟩ := errorless_of_generate generated
  obtain ⟨ds, s, parses, name, _, same, clean⟩ := clean_of_context analyzed program errorless
  have ends := clean.generate_emits parses same { settings := some c.log }
  unfold Ends at ends
  rw [generated] at ends
  obtain ⟨rfl, cs, lowered, emitted⟩ := ends
  have each : List.Forall₂ (fun f d => f ∈ p.functions ∧
      f.constant? (f.resolvedKind? c.typing) = some d) p.functions cs :=
    (List.forall₂_and_left _ _).mpr ⟨fun f hf => hf, lowered⟩
  have records : List.Forall₂ (·.WrittenAs s) p.functions (cs.map Constant.record) := by
    rw [List.forall₂_map_right_iff]
    exact each.imp fun f c h => clean.writtenAs h.1 h.2
  have spelled : ∀ c ∈ cs, List.Forall₂ Line.Spells (c.lines 1) c.readLines := by
    have spells := each.flip.imp fun c f h => And.intro (parses.spells same h.1 h.2) h
    exact ((List.forall₂_and_left _ _).mp spells).1
  have names : p.functions.map (·.name) = (cs.map Constant.record).map (·.name) := by
    rw [← List.forall₂_eq_eq_eq, List.forall₂_map_left_iff, List.forall₂_map_right_iff]
    refine records.imp ?_
    rintro f r ⟨_, _, _, _, _, _, _, _, _, name, _⟩
    exact name.symm
  obtain ⟨distinct, _, distinct', targets⟩ := Names.ofProgram_of_clean clean.named
  have words := fun e => parses.isWord_of_exports same clean.named (e := e)
  rw [← clean.exports] at distinct' targets words
  rw [names] at distinct targets
  refine ⟨p, s, cs.map Constant.record, program, clean.session, ?_, records, distinct, distinct',
    targets, ?_⟩
  · rw [emitted, name]
    exact ModuleRecord.read?_moduleLines plain spelled words
  · rw [emitted]
    rfl

/-- Two functions, of which the second is written as it is read, and two exports. -/
def twoExports : Source :=
  { text := "export function f: f64 +0.5\nfunction g: i32 7\nexport g as h" }

theorem generated_text_determines_twoExports : ∃ a text g p s,
    (Context.analyze {} twoExports).1 = .ok a ∧
      a.generate { settings := some {} } = .ok text g ∧ a.program = some p ∧
      a.exports.entries = [("f", "f"), ("h", "g")] ∧
      List.Forall₂ (·.WrittenAs s) p.functions
        [⟨"f", .f64, "0x1.0000000000000p-1", some "+0.5"⟩, ⟨"g", .i32, "7", none⟩] := by
  have run : (twoExports.compile? {}).bind ModuleRecord.read? = some ⟨"main",
      [⟨"f", .f64, "0x1.0000000000000p-1", some "+0.5"⟩, ⟨"g", .i32, "7", none⟩],
      [("f", "f"), ("h", "g")]⟩ := by
    decide +kernel
  obtain ⟨text, compiled, read⟩ := Option.bind_eq_some_iff.mp run
  obtain ⟨a, g, analyzed, _, generated⟩ := Source.compile?_eq_some.mp compiled
  obtain ⟨p, s, records, program, _, read', written, _⟩ :=
    generated_text_determines (by decide) analyzed generated
  obtain ⟨_, rfl, exports⟩ := ModuleRecord.mk.inj (Option.some.inj (read'.symm.trans read))
  exact ⟨a, text, g, p, s, analyzed, generated, program, exports, written⟩

end Analysis

end ConstFun
