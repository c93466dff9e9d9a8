import ConstFun.Program.Parse
import ConstFun.Proofs.Scanning
import Mathlib.Data.List.Infix

namespace ConstFun

section Escapes

variable {c : Char} (plain : c ∉ ['\\', 'n', 'r', 't', 'x', 'u', 'U', '\x27', '\x22'])
  (digit : ∀ d, Nat.digitChar d ≠ c)
include digit plain

theorem eq_of_mem_escapeChar {mark d : Char} (mem : c ∈ (escapeChar mark d).toList) : c = d := by
  have hex := not_mem_hexDigits digit
  simp only [List.mem_cons, List.not_mem_nil, or_false, not_or] at plain
  unfold escapeChar at mem
  split_ifs at mem
  · simpa [plain] using mem
  · simp [plain] at mem
  · simp [plain] at mem
  · simp [plain] at mem
  · simpa using mem
  · unfold escapeCode at mem
    split_ifs at mem <;> simp [plain, hex] at mem

theorem mem_of_mem_quoted {text : String} (mem : c ∈ (quoted text).toList) : c ∈ text.toList := by
  have mark : c ≠ quoteMark text := by
    simp only [List.mem_cons, List.not_mem_nil, or_false, not_or] at plain
    unfold quoteMark
    split_ifs <;> simp [plain]
  simp only [quoted, String.toList_append, String.toList_singleton, List.mem_append,
    List.mem_singleton, mark, false_or, or_false, String.toList_join, List.mem_flatMap,
    List.mem_map] at mem
  obtain ⟨_, ⟨d, inside, rfl⟩, mem⟩ := mem
  rw [eq_of_mem_escapeChar plain digit mem]
  exact inside

end Escapes

/-- A text with a minus sign has no letter `R`, with which the label of the family ends. -/
def SpellsNoCode (text : String) : Prop := '-' ∉ text.toList ∨ 'R' ∉ text.toList

theorem Lexeme.spellsNoCode [Alphabet] (l : Lexeme) (p : Position) :
    SpellsNoCode (l.token p).text := by
  cases l with
  | word chars isWord =>
    refine .inl ?_
    rw [toList_text]
    exact isWord.not_mem_of_ascii (by decide)
  | number n =>
    refine .inr fun mem => ?_
    rw [toList_text] at mem
    exact n.forall_mem_chars (p := (· ≠ 'R')) (by decide) (by decide) (by decide) _ mem rfl
  | lparen | rparen | colon => exact .inl (by simp [toList_text, chars])

theorem spellsNoCode_of_tokenize [Alphabet] {text : String} {tokens : List Token}
    (lexed : tokenize text = .ok tokens) {t : Token} (mem : t ∈ tokens) : SpellsNoCode t.text := by
  refine Cursor.forall_mem_tokens (P := fun t => SpellsNoCode t.text) ?_ lexed t mem
  intro cursor stop t read
  rcases nextToken_cases read with ⟨_, rfl⟩ | ⟨_, l, _, _, rfl, _⟩
  · exact .inl (by simp [Token.at])
  · exact l.spellsNoCode _

theorem SpellsNoCode.quoted {text : String} (plain : SpellsNoCode text) :
    SpellsNoCode (quoted text) := by
  rcases plain with noSign | noLetter
  · refine .inl fun mem => noSign (mem_of_mem_quoted (by decide) ?_ mem)
    exact fun d => Nat.digitChar_ne _ (by decide)
  · refine .inr fun mem => noLetter (mem_of_mem_quoted (by decide) ?_ mem)
    exact fun d => Nat.digitChar_ne _ (by decide)

theorem SpellsNoCode.shown {t : Token} (plain : SpellsNoCode t.text) : SpellsNoCode t.shown := by
  unfold Token.shown
  split
  next => exact .inr (by decide)
  next => exact plain.quoted

theorem not_infix_pair {x y : Char} {left right : List Char} (first : y ∉ left)
    (second : x ∉ right) (between : right.head? ≠ some y) : ¬[x, y] <:+: left ++ right := by
  intro inside
  rcases List.infix_append_iff.mp inside with inside | inside | ⟨front, back, split, ends, starts⟩
  · exact first (inside.subset (by simp))
  · exact second (inside.subset (by simp))
  · -- the pair would have to stand across the border
    rcases front with _ | ⟨a, _ | ⟨b, front⟩⟩
    · rw [List.nil_append] at split
      exact second (starts.subset (split ▸ by simp))
    · simp only [List.cons_append, List.nil_append, List.cons.injEq] at split
      obtain ⟨-, rfl⟩ := split
      obtain ⟨more, rfl⟩ := starts
      exact between rfl
    · simp only [List.cons_append, List.cons.injEq] at split
      obtain ⟨-, rfl, -⟩ := split
      exact first (ends.subset (by simp))

/-- What a message shows stands behind fixed words, and these may stand behind an alias. -/
structure Wording where
  lead : String
  words : String
  shown : String
  trail : String

namespace Wording

def text (w : Wording) : String := w.lead ++ w.words ++ w.shown ++ w.trail

/-- The parts but the one that is shown hold no minus sign, and the fixed ones no letter `R`. -/
structure Plain (w : Wording) : Prop where
  lead : '-' ∉ w.lead.toList
  words : w.words ≠ "" ∧ '-' ∉ w.words.toList ∧ 'R' ∉ w.words.toList
  trail : '-' ∉ w.trail.toList ∧ 'R' ∉ w.trail.toList
  shown : SpellsNoCode w.shown

theorem Plain.not_infix {w : Wording} (plain : w.Plain) :
    ¬['R', '-'] <:+: ']' :: ' ' :: w.text.toList := by
  obtain ⟨lead, words, shown, trail⟩ := w
  obtain ⟨noLead, ⟨some_word, noSign, noLetter⟩, ⟨noSign', noLetter'⟩, plain⟩ := plain
  dsimp only at noLead some_word noSign noLetter noSign' noLetter' plain
  rcases plain with noSign'' | noLetter''
  · intro inside
    have mem := inside.subset (List.mem_cons_of_mem _ (List.mem_singleton_self '-'))
    simp [text, noLead, noSign, noSign', noSign''] at mem
  · obtain ⟨c, more, first⟩ := List.exists_cons_of_ne_nil (mt String.toList_eq_nil_iff.mp some_word)
    have split : ']' :: ' ' :: (⟨lead, words, shown, trail⟩ : Wording).text.toList =
        (']' :: ' ' :: lead.toList) ++ (words.toList ++ (shown.toList ++ trail.toList)) := by
      simp [text]
    rw [split]
    refine not_infix_pair (by simp [noLead]) (by simp [noLetter, noLetter', noLetter'']) ?_
    rw [first] at noSign ⊢
    simp only [List.cons_append, List.head?_cons, ne_eq, Option.some.injEq]
    rintro rfl
    exact noSign (by simp)

end Wording

/-- A message that shows a text between fixed words. -/
theorem SpellsNoCode.exists_wording {shown message : String} {c : Code}
    (plain : SpellsNoCode shown) (words trail : String)
    (fixed : (words ≠ "" ∧ '-' ∉ words.toList ∧ 'R' ∉ words.toList) ∧ '-' ∉ trail.toList ∧
      'R' ∉ trail.toList) (same : message = c.tag (words ++ shown ++ trail)) :
    ∃ w : Wording, w.Plain ∧ message = c.tag w.text := by
  refine ⟨⟨"", words, shown, trail⟩, ⟨by simp, fixed.1, fixed.2, plain⟩, ?_⟩
  rw [same, Wording.text, String.empty_append]

theorem Code.toList_tag (c : Code) (message : String) :
    (c.tag message).toList = '[' :: c.text.toList ++ ']' :: ' ' :: message.toList := by
  have parts : c.tag message = "[" ++ c.text ++ "] " ++ message := rfl
  simp [parts]

theorem ParseError.exists_wording {e : ParseError} (plain : SpellsNoCode e.token.text)
    (named : ∀ publicName, e.problem = .expectedFunctionAfterAlias publicName →
      '-' ∉ publicName.toList) :
    ∃ w : Wording, w.Plain ∧ e.message = e.problem.code.tag w.text := by
  obtain ⟨problem, t⟩ := e
  have shown : SpellsNoCode t.shown := plain.shown
  cases problem with
  | unexpectedItem =>
    exact shown.exists_wording "unexpected token at top level: " ", expected 'function' or 'export'"
      (by simp) rfl
  | expectedFunction =>
    exact shown.exists_wording "expected 'function', got " " instead" (by simp) rfl
  | expectedName =>
    exact shown.exists_wording "expected function name, got " " instead" (by simp) rfl
  | expectedClosing =>
    exact shown.exists_wording "expected ')' after '(', got " " instead" (by simp) rfl
  | expectedType =>
    exact shown.exists_wording "expected type name after ':', got " " instead" (by simp) rfl
  | invalidType => exact plain.exists_wording "invalid type '" "'" (by simp) rfl
  | invalidExpression =>
    refine shown.exists_wording "invalid expression: " "" (by simp) ?_
    rw [String.append_empty]
    rfl
  | expectedExport => exact shown.exists_wording "expected 'export', got " " instead" (by simp) rfl
  | expectedAlias =>
    exact shown.exists_wording "expected export name after 'as', got " " instead" (by simp) rfl
  | expectedFunctionAfterAlias publicName =>
    refine ⟨⟨"expected 'function' after 'export as " ++ publicName, "', got ", t.shown, " instead"⟩,
      ⟨?_, by simp, by simp, shown⟩, rfl⟩
    simp [named publicName rfl]
  | expectedExportTarget =>
    exact shown.exists_wording "expected 'function', 'as' or a function name after 'export', got "
      " instead" (by simp) rfl

theorem Code.par_text : ∀ c ∈ CodeFamily.par.codes,
    ['R', '-'] <:+: c.text.toList ∧ ']' ∉ c.text.toList ∧
      ∀ c' ∈ CodeFamily.par.codes, c.text.toList <:+: '[' :: c'.text.toList → c = c' := by
  decide +kernel

theorem ParseProblem.code_mem (problem : ParseProblem) : problem.code ∈ CodeFamily.par.codes := by
  cases problem <;> simp [code, CodeFamily.codes, CodeFamily.numbers]

/-- A message holds no code of its family but its own. -/
theorem ParseError.code_of_infix {e : ParseError} (plain : SpellsNoCode e.token.text)
    (named : ∀ publicName, e.problem = .expectedFunctionAfterAlias publicName →
      '-' ∉ publicName.toList) {c : Code} (known : c ∈ CodeFamily.par.codes)
    (holds : c.text.toList <:+: e.message.toList) : c = e.problem.code := by
  obtain ⟨w, plain, text⟩ := exists_wording plain named
  obtain ⟨pair, noBracket, own⟩ := Code.par_text c known
  rw [text, Code.toList_tag] at holds
  rcases List.infix_append_iff.mp holds with inside | inside | ⟨front, back, split, ends, starts⟩
  · exact own _ e.problem.code_mem inside
  · exact absurd (pair.trans inside) plain.not_infix
  · -- the bracket behind the code is in no code, so nothing of this one stands behind
    cases back with
    | nil =>
      rw [List.append_nil] at split
      exact own _ e.problem.code_mem (split ▸ ends.isInfix)
    | cons d back =>
      obtain ⟨more, starts⟩ := starts
      obtain ⟨rfl, -⟩ := List.cons.inj starts
      exact absurd (split ▸ by simp) noBracket

end ConstFun
