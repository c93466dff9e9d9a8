import ConstFun.Proofs.Lookahead
import ConstFun.Proofs.Messages
import ConstFun.Proofs.Outcomes
import Mathlib.Computability.Language
import Mathlib.Order.Bounds.Basic

namespace ConstFun

namespace Parser

variable {α β : Type} {s t : TokenStream} {a : Token} {rest : List Token} {kind : TokenKind}
  {problem : ParseProblem}

theorem bind_eq_error {p : Parser α} {f : α → Parser β} {e : ParseFailure}
    (failed : (p >>= f) s = .error e) :
    p s = .error e ∨ ∃ x t, p s = .ok (x, t) ∧ f x t = .error e := by
  cases first : p s with
  | error e' =>
    rw [bind_of_failed first] at failed
    cases failed
    exact .inl rfl
  | ok result =>
    obtain ⟨x, t⟩ := result
    rw [bind_of_read first] at failed
    exact .inr ⟨x, t, rfl, failed⟩

/-- A parser that refuses no token. -/
def RefusesNone (p : Parser α) : Prop := ∀ s e, p s ≠ .error (.rejected e)

namespace RefusesNone

theorem pure (x : α) : RefusesNone (Pure.pure x : Parser α) := by
  intro s e failed
  cases failed

theorem bind {p : Parser α} {f : α → Parser β} (first : RefusesNone p)
    (second : ∀ x, RefusesNone (f x)) : RefusesNone (p >>= f) := by
  intro s e failed
  rcases bind_eq_error failed with failed | ⟨x, t, _, failed⟩
  · exact first s e failed
  · exact second x t e failed

theorem peek : RefusesNone peek := by
  intro s e failed
  unfold Parser.peek at failed
  split at failed <;> cases failed

theorem advance : RefusesNone advance := by
  intro s e failed
  unfold Parser.advance at failed
  split at failed
  next => split at failed <;> cases failed
  next => cases failed

theorem accept (kind : TokenKind) : RefusesNone (accept kind) := by
  refine peek.bind fun a => ?_
  split
  next => exact advance.bind fun _ => pure true
  next => exact pure false

theorem spanFrom (start : Token) : RefusesNone (spanFrom start) := by
  intro s e failed
  unfold Parser.spanFrom at failed
  split at failed <;> cases failed

end RefusesNone

end Parser

/-- The problems that the tokens of a text can have. No keyword that opens an item is ever missed,
and an alias is one of the names. -/
def ParseProblem.Possible (tokens : List Token) : ParseProblem → Prop
  | .expectedFunction | .expectedExport => False
  | .expectedFunctionAfterAlias publicName =>
    ∃ t ∈ tokens, t.kind = .ident ∧ t.text = publicName
  | _ => True

namespace Parser

variable {α β : Type} {s t : TokenStream} {a : Token} {rest : List Token} {kind : TokenKind}
  {problem : ParseProblem} {tokens : List Token} {L M : Language Terminal}

/-- A parser that refuses a token of the stream would do so whatever stands behind it, and what
stands before it is the start of a word of the language. The problem is one that the tokens can
have. -/
def Prompt (tokens : List Token) (L : Language Terminal) (p : Parser α) (s : TokenStream) : Prop :=
  ∀ e, p s = .error (.rejected e) → e.problem.Possible tokens ∧ ∃ taken rest,
    s.rest = taken ++ e.token :: rest ∧ (∃ more, taken.map Token.terminal ++ more ∈ L) ∧
      ∀ rest', p ⟨s.previous, taken ++ e.token :: rest'⟩ = .error (.rejected e)

namespace Prompt

theorem mono {p : Parser α} (prompt : Prompt tokens L p s) (sub : ∀ w ∈ L, w ∈ M) :
    Prompt tokens M p s := by
  intro e failed
  obtain ⟨possible, taken, rest, split, ⟨more, mem⟩, again⟩ := prompt e failed
  exact ⟨possible, taken, rest, split, ⟨more, sub _ mem⟩, again⟩

theorem of_refusesNone {p : Parser α} (never : RefusesNone p) : Prompt tokens L p s :=
  fun e failed => absurd failed (never s e)

theorem reject (starts : s.rest = a :: rest) (possible : problem.Possible tokens)
    (some_word : ∃ w, w ∈ L) : Prompt tokens L (Parser.reject problem a : Parser α) s := by
  intro e failed
  cases failed
  exact ⟨possible, [], rest, starts, some_word, fun rest' => rfl⟩

theorem peek {f : Token → Parser α}
    (each : ∀ a rest, s.rest = a :: rest → Prompt tokens L (f a) s) :
    Prompt tokens L (Parser.peek >>= f) s := by
  intro e failed
  rcases bind_eq_error failed with failed | ⟨a, t, looked, failed⟩
  · exact absurd failed (RefusesNone.peek s e)
  obtain ⟨rfl, rest, starts⟩ := peek_eq_ok looked
  obtain ⟨possible, taken, rest', split, viable, again⟩ := each a rest starts e failed
  refine ⟨possible, taken, rest', split, viable, fun more => ?_⟩
  obtain ⟨more', eq⟩ := cons_of_split (split.symm.trans starts) more
  rw [eq, bind_of_read peek_run, ← eq, again more]

/-- What follows the last token that can be refused does not matter. -/
theorem last {p : Parser α} {f : α → Parser β} (first : Prompt tokens L p s)
    (never : ∀ x, RefusesNone (f x)) : Prompt tokens L (p >>= f) s := by
  intro e failed
  rcases bind_eq_error failed with failed | ⟨x, t, _, failed⟩
  · obtain ⟨possible, taken, rest, split, viable, again⟩ := first e failed
    exact ⟨possible, taken, rest, split, viable, fun more => bind_of_failed (again more)⟩
  · exact absurd failed (never x t e)

theorem map {p : Parser α} (g : α → β) (prompt : Prompt tokens L p s) :
    Prompt tokens L (g <$> p) s := by
  rw [map_eq_pure_bind]
  exact prompt.last fun x => .pure (g x)

theorem bind {p : Parser α} {f : α → Parser β} (first : Prompt tokens L p s) (looks : LooksAhead p)
    (sound : ∀ x t, p s = .ok (x, t) → ∃ taken, s.rest = taken ++ t.rest ∧
      taken.map Token.terminal ∈ L)
    (second : ∀ x t, p s = .ok (x, t) → Prompt tokens M (f x) t) (some_word : ∃ w, w ∈ M) :
    Prompt tokens (L * M) (p >>= f) s := by
  intro e failed
  rcases bind_eq_error failed with failed | ⟨x, t, done, failed⟩
  · obtain ⟨possible, taken, rest, split, ⟨more, mem⟩, again⟩ := first e failed
    obtain ⟨w, mem'⟩ := some_word
    refine ⟨possible, taken, rest, split, ⟨more ++ w, ?_⟩,
      fun rest' => bind_of_failed (again rest')⟩
    rw [← List.append_assoc]
    exact Language.append_mem_mul mem mem'
  · obtain ⟨before, split, -, again⟩ := looks s x t done
    obtain ⟨before', split', mem⟩ := sound x t done
    obtain rfl := List.append_cancel_right (split.symm.trans split')
    obtain ⟨possible, taken, rest, later, ⟨more, mem'⟩, again'⟩ := second x t done e failed
    refine ⟨possible, before ++ taken, rest, by simp [split, later],
      ⟨more, ?_⟩, fun rest' => ?_⟩
    · rw [List.map_append, List.append_assoc]
      exact Language.append_mem_mul mem mem'
    · have here := again (taken ++ e.token :: rest') (later ▸ head?_append_cons ..)
      rw [List.append_assoc, bind_of_read here, again' rest']

/-- A token is taken, and the rest is prompt. -/
theorem take {p : Parser α} {f : α → Parser β} {x : α} (looks : LooksAhead p)
    (starts : s.rest = a :: rest) (ran : p s = .ok (x, ⟨some a, rest⟩))
    (next : Prompt tokens M (f x) ⟨some a, rest⟩) (some_word : ∃ w, w ∈ M) :
    Prompt tokens ({[a.terminal]} * M) (p >>= f) s := by
  refine bind ?_ looks ?_ ?_ some_word
  · intro e failed
    rw [ran] at failed
    cases failed
  · intro y t done
    rw [ran] at done
    cases done
    exact ⟨[a], starts, rfl⟩
  · intro y t done
    rw [ran] at done
    cases done
    exact next

/-- An optional part is refused only behind the token that opens it. -/
theorem optional {f : Bool → Parser α} (word : kind ≠ .eof)
    (opened : ∀ a rest, a.kind = kind → Prompt tokens M (f true) ⟨some a, rest⟩)
    (skipped : RefusesNone (f false)) (some_word : ∃ w, w ∈ M)
    (sub : ∀ a : Token, a.kind = kind → ∀ w ∈ M, a.terminal :: w ∈ L) :
    Prompt tokens L (Parser.accept kind >>= f) s := by
  intro e failed
  rcases bind_eq_error failed with refused | ⟨found, t, done, refused⟩
  · exact absurd refused (RefusesNone.accept kind s e)
  rcases accept_eq_ok word done with ⟨rfl, a, rest, starts, same, rfl⟩ | ⟨rfl, rfl⟩
  · refine mono (take (accept_looksAhead kind) starts done (opened a rest same) some_word) ?_ e
      failed
    intro w mem
    obtain ⟨_, rfl, v, inside, rfl⟩ := Language.mem_mul.mp mem
    exact sub a same v inside
  · exact absurd refused (skipped s e)

end Prompt

/-- The words that a family of them lists. -/
def words {ι : Type} (family : ι → List Terminal) : Language Terminal := {w | ∃ i, family i = w}

theorem exists_mem_words {ι : Type} {family : ι → List Terminal} (i : ι) : ∃ w, w ∈ words family :=
  ⟨_, i, rfl⟩

theorem exists_mem_mul (first : ∃ w, w ∈ L) (second : ∃ w, w ∈ M) : ∃ w, w ∈ L * M := by
  obtain ⟨v, mem⟩ := first
  obtain ⟨w, mem'⟩ := second
  exact ⟨v ++ w, Language.append_mem_mul mem mem'⟩

def nameWords : Language Terminal := words fun text : String => [.name text]

def numberWords : Language Terminal := words fun n : String × Bool => [.number n.1 n.2]

def kindWords : Language Terminal := words fun k : Kind => [.name k.spelling]

theorem expect_prompt (possible : problem.Possible tokens) (some_word : ∃ w, w ∈ L) :
    Prompt tokens L (expect kind problem) s := by
  refine Prompt.peek fun a rest starts => ?_
  split
  next => exact .of_refusesNone .advance
  next => exact .reject starts possible some_word

theorem expectName_sound (done : expect .ident problem s = .ok (a, t)) :
    ∃ taken, s.rest = taken ++ t.rest ∧ taken.map Token.terminal ∈ nameWords := by
  obtain ⟨rest, starts, name, rfl⟩ := expect_eq_ok (by decide) done
  exact ⟨[a], starts, a.text, by simp [Token.terminal_eq_name.mpr ⟨name, rfl⟩]⟩

theorem literal_prompt : Prompt tokens numberWords literal s := by
  refine Prompt.peek fun start rest starts => ?_
  split
  next =>
    refine .of_refusesNone (RefusesNone.advance.bind fun n => ?_)
    exact (RefusesNone.spanFrom start).bind fun span => .pure _
  next => exact .reject starts trivial (exists_mem_words ("", false))

theorem parentheses_prompt : Prompt tokens (words parenthesesTerminals) parentheses s := by
  refine .optional (M := {[.word .rparen]}) (by decide) ?_ (.pure ()) ⟨_, rfl⟩ ?_
  · intro a rest opened
    refine .map _ (expect_prompt ?_ ⟨_, rfl⟩)
    exact trivial
  · rintro a opened w rfl
    exact ⟨true, by simp [parenthesesTerminals, (Token.terminal_eq_word (by decide)).mpr opened]⟩

theorem parentheses_reads (done : parentheses s = .ok ((), t)) :
    ∃ taken, s.rest = taken ++ t.rest ∧ taken.map Token.terminal ∈ words parenthesesTerminals := by
  obtain ⟨present, taken, split, terminals⟩ := parentheses_sound done
  exact ⟨taken, split, present, terminals.symm⟩

theorem typeName_prompt : Prompt tokens kindWords typeName s := by
  intro e failed
  obtain ⟨previous, here⟩ := s
  cases here with
  | nil => cases failed
  | cons n rest =>
    have here : e.problem.Possible tokens ∧ e.token = n := by
      rw [typeName_run] at failed
      split_ifs at failed <;> cases failed <;> exact ⟨trivial, rfl⟩
    refine ⟨here.1, [], rest, by rw [here.2, List.nil_append], exists_mem_words .u8, fun more => ?_⟩
    rw [typeName_run] at failed
    rw [here.2, List.nil_append, typeName_run]
    split_ifs at failed ⊢ <;> cases failed <;> rfl

theorem annotation_prompt : Prompt tokens (words annotationTerminals) annotation s := by
  refine .optional (M := kindWords) (by decide) (fun a rest opened => typeName_prompt.map _)
    (.pure none) (exists_mem_words .u8) ?_
  rintro a opened _ ⟨k, rfl⟩
  exact ⟨some k, by simp [annotationTerminals, (Token.terminal_eq_word (by decide)).mpr opened]⟩

theorem annotation_reads {type : Option TypeName} (done : annotation s = .ok (type, t)) :
    ∃ taken, s.rest = taken ++ t.rest ∧ taken.map Token.terminal ∈ words annotationTerminals := by
  obtain ⟨kind, taken, split, terminals, _⟩ := annotation_sound done
  exact ⟨taken, split, kind, terminals.symm⟩

theorem function_prompt (exportAs : Option String) (starts : s.rest = a :: rest)
    (word : a.kind = .functionWord) :
    Prompt tokens (words FunctionForm.terminals) (function exportAs) s := by
  obtain ⟨previous, _⟩ := s
  cases starts
  have name : ∃ w, w ∈ nameWords := exists_mem_words ""
  have number : ∃ w, w ∈ numberWords := exists_mem_words ("", false)
  have typed : ∃ w, w ∈ words annotationTerminals * numberWords :=
    exists_mem_mul (exists_mem_words none) number
  have closed : ∃ w, w ∈ words parenthesesTerminals * (words annotationTerminals * numberWords) :=
    exists_mem_mul (exists_mem_words false) typed
  have parts : Prompt tokens ({[a.terminal]} * (nameWords * (words parenthesesTerminals *
      (words annotationTerminals * numberWords)))) (function exportAs) ⟨previous, a :: rest⟩ := by
    refine .peek fun start _ _ => ?_
    refine .take (expect_looksAhead _ _) rfl (expect_run (by decide) word) ?_
      (exists_mem_mul name closed)
    refine .bind (expect_prompt trivial name) (expect_looksAhead _ _)
      (fun _ _ => expectName_sound) (fun name _ _ => ?_) closed
    refine .bind parentheses_prompt parentheses_looksAhead (fun _ _ => parentheses_reads)
      (fun _ _ _ => ?_) typed
    refine .bind annotation_prompt annotation_looksAhead (fun _ _ => annotation_reads)
      (fun type _ _ => ?_) number
    exact literal_prompt.last fun body => (RefusesNone.spanFrom start).bind fun span => .pure _
  refine parts.mono fun w mem => ?_
  obtain ⟨_, rfl, _, named, rfl⟩ := Language.mem_mul.mp mem
  obtain ⟨_, ⟨name, rfl⟩, _, closed, rfl⟩ := Language.mem_mul.mp named
  obtain ⟨_, ⟨present, rfl⟩, _, typed, rfl⟩ := Language.mem_mul.mp closed
  obtain ⟨_, ⟨kind, rfl⟩, _, ⟨⟨text, isDecimal⟩, rfl⟩, rfl⟩ := Language.mem_mul.mp typed
  refine ⟨⟨name, present, kind, text, isDecimal⟩, ?_⟩
  rw [(Token.terminal_eq_word (by decide)).mpr word]
  rfl

theorem aliasOf_prompt (name : Token) : Prompt tokens (words aliasTerminals) (aliasOf name) s := by
  refine .optional (M := nameWords) (by decide) ?_ (.pure name) (exists_mem_words "") ?_
  · intro a rest opened
    refine expect_prompt ?_ (exists_mem_words "")
    exact trivial
  · rintro a opened _ ⟨text, rfl⟩
    exact ⟨some text, by simp [aliasTerminals, (Token.terminal_eq_word (by decide)).mpr opened]⟩

theorem aliasedFunction_prompt (within : s.rest ⊆ tokens) (starts : s.rest = a :: rest)
    (word : a.kind = .asWord) :
    Prompt tokens ({[a.terminal]} * (nameWords * words FunctionForm.terminals)) aliasedFunction
      s := by
  obtain ⟨previous, _⟩ := s
  cases starts
  have function : ∃ w, w ∈ words FunctionForm.terminals :=
    exists_mem_words ⟨"", false, none, "", false⟩
  have name : ∃ w, w ∈ nameWords := exists_mem_words ""
  refine .take advance_looksAhead rfl (advance_run (by simp [word])) ?_
    (exists_mem_mul name function)
  refine .bind (expect_prompt trivial name) (expect_looksAhead _ _)
    (fun _ _ => expectName_sound) (fun publicName t done => ?_) function
  obtain ⟨more, next, named, rfl⟩ := expect_eq_ok (by decide) done
  have mem : publicName ∈ tokens := by
    have next : rest = publicName :: more := next
    exact within (by simp [next])
  refine .peek fun following more' starts => ?_
  split
  next keyword => exact (function_prompt _ starts keyword).map _
  next => exact .reject starts ⟨publicName, mem, named, rfl⟩ function

theorem exportedName_prompt (start : Token) (starts : s.rest = a :: rest)
    (named : a.kind = .ident) :
    Prompt tokens ({[a.terminal]} * words aliasTerminals) (exportedName start) s := by
  obtain ⟨previous, _⟩ := s
  cases starts
  refine .take advance_looksAhead rfl (advance_run (by simp [named])) ?_ (exists_mem_words none)
  refine (aliasOf_prompt a).last fun publicName => ?_
  exact (RefusesNone.spanFrom start).bind fun span => .pure _

/-- The words that follow `export`. -/
def exportedWords : Language Terminal :=
  {w | .word .exportWord :: w ∈ words ItemForm.terminals}

theorem exportItem_prompt (within : s.rest ⊆ tokens) (starts : s.rest = a :: rest)
    (word : a.kind = .exportWord) :
    Prompt tokens (words ItemForm.terminals) exportItem s := by
  obtain ⟨previous, _⟩ := s
  cases starts
  have some_word : ∃ w, w ∈ exportedWords := ⟨_, .exportName "" none, rfl⟩
  refine .mono (L := {[a.terminal]} * exportedWords) ?_ ?_
  · refine .peek fun start _ _ => ?_
    refine .take (expect_looksAhead _ _) rfl (expect_run (by decide) word) ?_ some_word
    refine .peek fun next more starts => ?_
    split
    next keyword =>
      refine ((function_prompt none starts keyword).map _).mono ?_
      rintro _ ⟨f, rfl⟩
      exact ⟨.exportFunction f, rfl⟩
    next =>
      split
      next as =>
        refine (aliasedFunction_prompt (fun t mem => within (by simp [mem])) starts as).mono ?_
        intro w mem
        obtain ⟨_, rfl, _, named, rfl⟩ := Language.mem_mul.mp mem
        obtain ⟨_, ⟨publicName, rfl⟩, _, ⟨f, rfl⟩, rfl⟩ := Language.mem_mul.mp named
        rw [(Token.terminal_eq_word (by decide)).mpr as]
        exact ⟨.exportAs publicName f, rfl⟩
      next =>
        split
        next named =>
          refine (exportedName_prompt start starts named).mono ?_
          intro w mem
          obtain ⟨_, rfl, _, ⟨publicName, rfl⟩, rfl⟩ := Language.mem_mul.mp mem
          rw [Token.terminal_eq_name.mpr ⟨named, rfl⟩]
          exact ⟨.exportName next.text publicName, rfl⟩
        next => exact .reject starts trivial some_word
  · intro w mem
    obtain ⟨_, rfl, v, exported, rfl⟩ := Language.mem_mul.mp mem
    rw [(Token.terminal_eq_word (by decide)).mpr word]
    exact exported

theorem item_prompt (within : s.rest ⊆ tokens) :
    Prompt tokens (words ItemForm.terminals) item s := by
  refine .peek fun a rest starts => ?_
  split
  next keyword =>
    refine ((function_prompt none starts keyword).map _).mono ?_
    rintro _ ⟨f, rfl⟩
    exact ⟨.function f, rfl⟩
  next =>
    split
    next exported => exact exportItem_prompt within starts exported
    next => exact .reject starts trivial (exists_mem_words (.exportName "" none))

theorem items_of_failed {e : ParseFailure} (starts : s.rest = a :: rest) (more : a.kind ≠ .eof)
    (failed : item s = .error e) : items s = ([], .error e) := by
  rw [items, starts]
  simp only [more, if_false]
  split
  next e' failed' =>
    rw [failed] at failed'
    cases failed'
    rfl
  next read =>
    rw [failed] at read
    cases read

/-- A token is refused whatever stands behind it, and what stands before it starts some items. -/
theorem items_prompt {e : ParseError} (within : s.rest ⊆ tokens)
    (refused : (items s).2 = .error (.rejected e)) :
    e.problem.Possible tokens ∧ ∃ taken rest, s.rest = taken ++ e.token :: rest ∧
      (∃ more, ∃ forms : List ItemForm,
        taken.map Token.terminal ++ more = forms.flatMap ItemForm.terminals) ∧
      ∀ rest', (items ⟨s.previous, taken ++ e.token :: rest'⟩).2 = .error (.rejected e) := by
  fun_induction items s with
  | case1 | case2 => cases refused
  | case3 s a rest starts more e' failed =>
    cases refused
    obtain ⟨possible, taken, rest', split, ⟨others, form, same⟩, again⟩ :=
      item_prompt within e failed
    refine ⟨possible, taken, rest', split, ⟨others, [form], by simp [same]⟩, fun after => ?_⟩
    obtain ⟨after', head⟩ := cons_of_split (split.symm.trans starts) after
    rw [items_of_failed head more (again after)]
  | case4 s a rest starts more d next read ds outcome tail ih =>
    obtain ⟨before, split, -, again⟩ := item_looksAhead s d next read
    obtain ⟨form, before', split', readAs⟩ := item_sound read
    obtain rfl := List.append_cancel_right (split.symm.trans split')
    obtain ⟨possible, taken, rest', later, ⟨others, forms, same⟩, again'⟩ :=
      ih (fun t mem => within (by simp [split, mem])) (by rw [tail]; exact refused)
    refine ⟨possible, before ++ taken, rest', by simp [split, later],
      ⟨others, form :: forms, by simp [readAs.terminals, same]⟩, fun after => ?_⟩
    have here := again (taken ++ e.token :: after) (later ▸ head?_append_cons ..)
    rw [later, ← List.append_assoc] at split
    obtain ⟨after', head⟩ := cons_of_split (split.symm.trans starts) after
    rw [List.append_assoc] at head ⊢
    rw [items_of_read head more here]
    exact again' after

end Parser

/-- The terminals start a program's, with the end as one of them. -/
def Viable (xs : List Terminal) : Prop :=
  ∃ forms : List ItemForm, xs <+: forms.flatMap ItemForm.terminals ++ [.word .eof]

theorem Viable.mono {xs ys : List Terminal} (viable : Viable ys) (sub : xs <+: ys) : Viable xs := by
  obtain ⟨forms, starts⟩ := viable
  exact ⟨forms, sub.trans starts⟩

/-- The words of forms are keywords and signs. -/
theorem ItemForm.word_of_mem {i : ItemForm} {kind : TokenKind} (mem : .word kind ∈ i.terminals) :
    kind ≠ .ident ∧ kind ≠ .number := by
  have function {f : FunctionForm} (mem : .word kind ∈ f.terminals) :
      kind ≠ .ident ∧ kind ≠ .number := by
    obtain ⟨name, present, type, text, isDecimal⟩ := f
    cases present <;> cases type <;>
      simp [FunctionForm.terminals, parenthesesTerminals, annotationTerminals] at mem <;> grind
  cases i with
  | function f => exact function mem
  | exportFunction f =>
    rcases List.mem_cons.mp mem with eq | mem
    · cases eq
      decide
    · exact function mem
  | exportAs publicName f =>
    simp only [terminals, List.mem_cons, Terminal.word.injEq, reduceCtorEq, false_or] at mem
    rcases mem with rfl | rfl | mem
    · decide
    · decide
    · exact function mem
  | exportName name publicName =>
    cases publicName <;> simp [terminals, aliasTerminals] at mem <;> grind

theorem Token.exists_terminal {x : Terminal}
    (plain : ∀ kind, x = .word kind → kind ≠ .ident ∧ kind ≠ .number) :
    ∃ t : Token, t.terminal = x := by
  cases x with
  | word kind => exact ⟨⟨kind, "", 1, 1, false⟩, (terminal_eq_word (plain kind rfl)).mpr rfl⟩
  | name text => exact ⟨⟨.ident, text, 1, 1, false⟩, rfl⟩
  | number text isDecimal => exact ⟨⟨.number, text, 1, 1, isDecimal⟩, rfl⟩

/-- A token that is refused whatever stands behind it is one with which no program goes on. -/
theorem Parser.not_viable {previous : Option Token} {taken : List Token} {a : Token}
    {e : ParseFailure}
    (refused : ∀ rest, (items ⟨previous, taken ++ a :: rest⟩).2 = .error e) :
    ¬Viable ((taken ++ [a]).map Token.terminal) := by
  rintro ⟨forms, others, same⟩
  -- tokens behind the refused one would complete a program, which is read
  obtain ⟨more, rfl⟩ : ∃ more : List Token, more.map Token.terminal = others := by
    have each : ∀ x ∈ others, x ∈ Set.range Token.terminal := by
      intro x mem
      have here : x ∈ forms.flatMap ItemForm.terminals ++ [.word .eof] := same ▸ by simp [mem]
      refine Token.exists_terminal ?_
      rintro kind rfl
      rcases List.mem_append.mp here with inside | last
      · obtain ⟨i, _, inside⟩ := List.mem_flatMap.mp inside
        exact ItemForm.word_of_mem inside
      · cases List.mem_singleton.mp last
        decide
    have whole : others ∈ Set.range (List.map Token.terminal) := by
      rw [Set.range_list_map]
      exact each
    exact whole
  rw [← List.map_append, List.append_assoc, List.singleton_append] at same
  obtain ⟨body, lasts, split, terminals, ends⟩ := List.map_eq_append_iff.mp same
  obtain ⟨last, _, rfl, isEnd, none⟩ := List.map_eq_cons_iff.mp ends
  obtain rfl := List.map_eq_nil_iff.mp none
  rw [Token.terminal_eq_word (by decide)] at isEnd
  obtain ⟨ds, t, read⟩ := items_complete terminals isEnd previous []
  have failed := refused more
  rw [split, read] at failed
  cases failed

/-- No message about a text's tokens holds the code of a missed keyword that opens an item. -/
theorem ParseError.no_keyword_code {text : String} {tokens : List Token}
    (lexed : tokenize text = .ok tokens) {e : ParseError} (mem : e.token ∈ tokens)
    (possible : e.problem.Possible tokens) :
    ∀ c ∈ ([⟨.par, 20⟩, ⟨.par, 60⟩] : List Code), ¬c.text.toList <:+: e.message.toList := by
  intro c internal holds
  have named : ∀ publicName, e.problem = .expectedFunctionAfterAlias publicName →
      '-' ∉ publicName.toList := by
    intro publicName same
    rw [same] at possible
    obtain ⟨t, here, name, rfl⟩ := possible
    exact ((spelled_of_tokenize lexed here).name name).not_mem_of_ascii (by decide)
  have known : ∀ c ∈ ([⟨.par, 20⟩, ⟨.par, 60⟩] : List Code), c ∈ CodeFamily.par.codes := by decide
  have own := code_of_infix (spellsNoCode_of_tokenize lexed mem) named (known c internal) holds
  rw [own] at internal
  generalize e.problem = problem at possible internal
  cases problem with
  | expectedFunction | expectedExport => exact possible
  | _ => simp [ParseProblem.code] at internal

/-- Where the tokens of a text are no program, they are refused at the first token with which they
can no longer become one, and the message holds no code of a missed keyword that opens an item. -/
theorem Program.read_refuses_first_impossible {text : String} {tokens : List Token}
    (lexed : tokenize text = .ok tokens) (short : ∀ t ∈ tokens, ¬t.Overlong) {name : String}
    {filename : Option String} {s : Session}
    (fails : ∀ p rest t, Program.read name filename { rest := tokens } s ≠ .ok (p, rest) t) :
    ∃ e t k, Program.read name filename { rest := tokens } s = .error (.grammar (.rejected e)) t ∧
      tokens[k]? = some e.token ∧
      IsLeast {k | ¬Viable ((tokens.take (k + 1)).map Token.terminal)} k ∧
      ∀ c ∈ ([⟨.par, 20⟩, ⟨.par, 60⟩] : List Code), ¬c.text.toList <:+: e.message.toList := by
  obtain ⟨ds', t, typed, -⟩ := typed_of_items lexed (not_readsOverlong short) s
  obtain ⟨e, refused⟩ : ∃ e, (Parser.items { rest := tokens }).2 = .error (.rejected e) := by
    refine (Parser.items_decides (ended_of_tokenize lexed)).resolve_left ?_
    rintro ⟨rest, parsed⟩
    obtain ⟨span, read⟩ := Program.read_run (Prod.ext rfl parsed) typed name filename
    exact fails _ _ _ read
  obtain ⟨possible, taken, rest, split, ⟨more, forms, goesOn⟩, again⟩ :=
    Parser.items_prompt (List.Subset.refl tokens) refused
  have split : tokens = taken ++ e.token :: rest := split
  have mem : e.token ∈ tokens := by simp [split]
  refine ⟨e, t, taken.length, Program.read_of_refused refused typed name filename, by simp [split],
    ⟨?_, ?_⟩, ParseError.no_keyword_code lexed mem possible⟩
  · have upTo : tokens.take (taken.length + 1) = taken ++ [e.token] := by
      simp [split, List.take_append]
    simpa only [Set.mem_ofPred_eq, upTo] using Parser.not_viable again
  · -- what stands before an earlier place was taken, and goes on
    intro k impossible
    by_contra earlier
    have goes : Viable (taken.map Token.terminal) :=
      ⟨forms, more ++ [.word .eof], by rw [← List.append_assoc, goesOn]⟩
    have upTo : tokens.take (k + 1) = taken.take (k + 1) := by
      rw [split, List.take_append_of_le_length (by omega)]
    rw [Set.mem_ofPred_eq, upTo] at impossible
    exact impossible (goes.mono ((List.take_prefix (k + 1) taken).map Token.terminal))

/-- A name that spells no kind stands where a type is expected. -/
def strangeType : String := "function f(): foo 3"

theorem Program.read_refuses_first_impossible_strangeType : ∃ tokens,
    tokenize strangeType = .ok tokens ∧ (∀ t ∈ tokens, ¬t.Overlong) ∧
      ∃ e t k, Program.read "main" none { rest := tokens } (Session.new {}) =
          .error (.grammar (.rejected e)) t ∧ e = ⟨.invalidType, ⟨.ident, "foo", 1, 15, false⟩⟩ ∧
        tokens[k]? = some e.token ∧
        IsLeast {k | ¬Viable ((tokens.take (k + 1)).map Token.terminal)} k := by
  have checked : (tokenize strangeType).toOption.any (fun tokens =>
      decide (∀ t ∈ tokens, ¬t.Overlong) && decide ((Parser.items { rest := tokens }).2 =
        .error (.rejected ⟨.invalidType, ⟨.ident, "foo", 1, 15, false⟩⟩))) = true := by
    decide +kernel
  cases lexed : tokenize strangeType with
  | error e => simp [lexed, Except.toOption] at checked
  | ok tokens =>
    simp only [lexed, Except.toOption, Option.any_some, Bool.and_eq_true,
      decide_eq_true_eq] at checked
    obtain ⟨short, refused⟩ := checked
    obtain ⟨ds, t, typed, -⟩ := typed_of_items lexed (not_readsOverlong short) (Session.new {})
    have failed := Program.read_of_refused refused typed "main" none
    obtain ⟨e, u, k, failed', place, least, -⟩ := read_refuses_first_impossible lexed short
      (fun p rest u read => by rw [failed] at read; cases read)
    refine ⟨tokens, rfl, short, e, u, k, failed', ?_, place, least⟩
    rw [failed] at failed'
    cases failed'
    rfl

end ConstFun
