import ConstFun.Proofs.Numerals
import ConstFun.Token.Scan

namespace ConstFun

theorem takeSign_mem (text : List Char) : (takeSign text).1 ∈ [[], ['+'], ['-']] := by
  unfold takeSign
  split <;> simp

theorem startsUnsigned_takeSign {text : List Char} (starts : startsNumber text = true) :
    startsUnsigned (takeSign text).2 = true := by
  unfold startsNumber at starts
  unfold takeSign
  split at starts <;> simp_all

theorem isDigit_of_mem_takeWhile {text : List Char} {c : Char}
    (mem : c ∈ text.takeWhile Char.isDigit) : c.isDigit = true :=
  List.mem_takeWhile_imp mem

theorem takeUnsigned_numeral {sign body : List Char} (signed : sign ∈ [[], ['+'], ['-']])
    (digits : startsUnsigned body = true) :
    ∃ n : Numeral, sign ++ (takeUnsigned body).1 = n.chars := by
  unfold takeUnsigned
  split
  next rest point =>
    -- with a point, either what stands before it or what stands behind it is a digit
    have nonempty : body.takeWhile Char.isDigit ++ rest.takeWhile Char.isDigit ≠ [] := by
      intro none
      obtain ⟨before, behind⟩ := List.append_eq_nil_iff.mp none
      have same := List.takeWhile_append_dropWhile (p := Char.isDigit) (l := body)
      rw [before, point, List.nil_append] at same
      subst same
      cases rest with
      | nil => simp [startsUnsigned] at digits
      | cons c rest =>
        have digit : c.isDigit = true := digits
        simp [digit] at behind
    exact ⟨⟨sign, body.takeWhile Char.isDigit, some (rest.takeWhile Char.isDigit), signed,
      fun c => isDigit_of_mem_takeWhile, fun c => isDigit_of_mem_takeWhile, nonempty⟩, rfl⟩
  next rest noPoint =>
    have nonempty : body.takeWhile Char.isDigit ≠ [] := by
      cases body with
      | nil => simp [startsUnsigned] at digits
      | cons c rest =>
        by_cases digit : c.isDigit = true
        · simp [digit]
        · by_cases point : c = '.'
          · subst point
            exact absurd (List.dropWhile_cons_of_neg (by decide)) (noPoint rest)
          · simp [startsUnsigned, digit, point] at digits
    refine ⟨⟨sign, body.takeWhile Char.isDigit, none, signed,
      fun c => isDigit_of_mem_takeWhile, by simp, by simpa using nonempty⟩, ?_⟩
    simp [Numeral.chars, Numeral.body]

/-- What is split off as a number is a numeral. -/
theorem takeNumber_numeral {text : List Char} (starts : startsNumber text = true) :
    ∃ n : Numeral, (takeNumber text).1 = n.chars :=
  takeUnsigned_numeral (takeSign_mem text) (startsUnsigned_takeSign starts)

theorem takeSign_append (text : List Char) : (takeSign text).1 ++ (takeSign text).2 = text := by
  unfold takeSign
  split <;> rfl

theorem takeUnsigned_append (text : List Char) :
    (takeUnsigned text).1 ++ (takeUnsigned text).2 = text := by
  have whole := List.takeWhile_append_dropWhile (p := Char.isDigit) (l := text)
  unfold takeUnsigned
  split
  next rest point =>
    rw [point] at whole
    rw [List.append_assoc, List.cons_append, List.takeWhile_append_dropWhile, whole]
  next => exact whole

theorem takeNumber_append (text : List Char) :
    (takeNumber text).1 ++ (takeNumber text).2 = text := by
  have body := takeUnsigned_append (takeSign text).2
  simp only [takeNumber, List.append_assoc, body, takeSign_append]

/-- Digits are followed by a point only behind another point. -/
theorem point_mem_takeUnsigned {text : List Char}
    (point : (takeUnsigned text).2.head? = some '.') : '.' ∈ (takeUnsigned text).1 := by
  revert point
  unfold takeUnsigned
  split
  next => simp
  next noPoint =>
    intro point
    obtain ⟨more, starts⟩ := List.head?_eq_some_iff.mp point
    exact absurd starts (noPoint more)

/-- A number without a point that has more digits than an integer may have. -/
def Token.Overlong (t : Token) : Prop :=
  t.kind = .number ∧ '.' ∉ t.text.toList ∧ digitLimit < t.text.toList.countP Char.isDigit

instance (t : Token) : Decidable t.Overlong := inferInstanceAs (Decidable (_ ∧ _))

theorem Numeral.countP_isDigit (n : Numeral) : n.chars.countP Char.isDigit = n.digits.length := by
  rw [List.countP_eq_length_filter, n.filter_isDigit]

variable [Alphabet]

/-- A letter or an underscore, and then letters, numerals and underscores. -/
def IsWord (text : List Char) : Prop :=
  ∃ c rest, text = c :: rest ∧ startsWord c = true ∧ ∀ d ∈ rest, continuesWord d = true

theorem IsWord.continues {text : List Char} (word : IsWord text) {c : Char} (mem : c ∈ text) :
    continuesWord c = true := by
  obtain ⟨d, rest, rfl, starts, continues⟩ := word
  rcases List.mem_cons.mp mem with rfl | mem
  · simp only [startsWord, Bool.or_eq_true] at starts
    simp only [continuesWord, Bool.or_eq_true]
    tauto
  · exact continues c mem

theorem IsWord.not_mem_of_ascii {text : List Char} (word : IsWord text) {c : Char}
    (other : AsciiContinues c false) : c ∉ text := by
  intro mem
  cases (continuesWord_ascii other).symm.trans (word.continues mem)

/-- A number is written as a numeral, and a name as a word. -/
structure Token.Spelled (t : Token) : Prop where
  number : t.kind = .number → ∃ n : Numeral, t.text = n.text ∧ t.isDecimal = n.fraction.isSome
  name : t.kind = .ident → IsWord t.text.toList

/-- What stands for a token other than the end: a word, a numeral, or one of three signs. -/
inductive Lexeme where
  | word (chars : List Char) (isWord : IsWord chars)
  | number (numeral : Numeral)
  | lparen
  | rparen
  | colon

namespace Lexeme

def chars : Lexeme → List Char
  | word chars _ => chars
  | number n => n.chars
  | lparen => ['(']
  | rparen => [')']
  | colon => [':']

def kind : Lexeme → TokenKind
  | word chars _ => .ofWord (String.ofList chars)
  | number _ => .number
  | lparen => .lparen
  | rparen => .rparen
  | colon => .colon

/-- The token of a lexeme at a position. -/
def token (l : Lexeme) (p : Position) : Token := .at p l.kind l.chars (l.chars.contains '.')

/-- A lexeme does not go on with what follows it. -/
def EndsBefore (l : Lexeme) (rest : List Char) : Prop :=
  match l with
  | word _ _ => ∀ c ∈ rest.head?, continuesWord c = false
  | number n => ∀ c ∈ rest.head?, continuesWord c = false ∧ (n.fraction = none → c ≠ '.')
  | _ => True

theorem kind_ne_eof (l : Lexeme) : l.kind ≠ .eof := by
  cases l with
  | word chars isWord =>
    simp only [kind, TokenKind.ofWord]
    split_ifs <;> simp
  | _ => simp [kind]

theorem exists_sign {c : Char} {sign : TokenKind} (marks : punctuation? c = some sign) :
    ∃ l : Lexeme, l.chars = [c] ∧ l.kind = sign ∧ l.chars.contains '.' = false ∧
      ∀ rest, l.EndsBefore rest := by
  unfold punctuation? at marks
  split_ifs at marks with left right point
  · exact ⟨.lparen, by rw [left]; rfl, Option.some.inj marks, rfl, fun _ => trivial⟩
  · exact ⟨.rparen, by rw [right]; rfl, Option.some.inj marks, rfl, fun _ => trivial⟩
  · exact ⟨.colon, by rw [point]; rfl, Option.some.inj marks, rfl, fun _ => trivial⟩

end Lexeme

theorem IsWord.no_point {text : List Char} (word : IsWord text) : text.contains '.' = false := by
  simpa using word.not_mem_of_ascii (c := '.') (by decide)

theorem ne_of_startsWord {c d : Char} (starts : startsWord c = true)
    (other : AsciiStarts d false) : c ≠ d := by
  rintro rfl
  cases (startsWord_ascii other).symm.trans starts

/-- What is split off as a number does not go on with what is left. -/
theorem takeNumber_endsBefore {text : List Char} {n : Numeral}
    (taken : (takeNumber text).1 = n.chars)
    (ended : (takeNumber text).2.head?.filter continuesWord = none) :
    (Lexeme.number n).EndsBefore (takeNumber text).2 := by
  intro c head
  refine ⟨by simpa [Option.mem_def.mp head] using ended, ?_⟩
  rintro whole rfl
  have point : (takeUnsigned (takeSign text).2).2.head? = some '.' := head
  have inside : '.' ∈ (takeNumber text).1 := List.mem_append_right _ (point_mem_takeUnsigned point)
  have none := n.contains_point
  rw [← taken, whole, List.contains_iff_mem.mpr inside] at none
  cases none

/-- What a token is read from: nothing at the end of the text, and else a lexeme. -/
theorem readToken_cases {start stop : Cursor} {t : Token}
    (read : readToken start = .ok t stop) :
    (start.rest = [] ∧ t = .at start.position .eof [] ∧ stop = start) ∨
      ∃ l : Lexeme, start.rest = l.chars ++ stop.rest ∧ t = l.token start.position ∧
        stop.position = start.position.afterText l.chars ∧ l.EndsBefore stop.rest := by
  unfold readToken at read
  split at read
  next empty =>
    obtain ⟨rfl, rfl⟩ := EStateM.Result.ok.inj read
    exact .inl ⟨empty, rfl, rfl⟩
  next c rest same =>
    right
    rw [same]
    split at read
    next starts =>
      obtain ⟨n, text⟩ := takeNumber_numeral starts
      have whole := takeNumber_append (c :: rest)
      simp only at read
      split at read
      next => cases read
      next ended =>
        obtain ⟨rfl, rfl⟩ := EStateM.Result.ok.inj read
        have ends := takeNumber_endsBefore text ended
        rw [text] at whole ⊢
        exact ⟨.number n, whole.symm, rfl, rfl, ends⟩
    next =>
      split at read
      next starts =>
        have isWord : IsWord (c :: rest.takeWhile continuesWord) :=
          ⟨c, _, rfl, starts, fun d mem => List.mem_takeWhile_imp mem⟩
        obtain ⟨rfl, rfl⟩ := EStateM.Result.ok.inj read
        refine ⟨.word _ isWord, ?_, ?_, rfl, fun d head => ?_⟩
        · simp [Lexeme.chars, List.takeWhile_append_dropWhile]
        · rw [Lexeme.token, Lexeme.chars, isWord.no_point]
          rfl
        · have stops := List.head?_dropWhile_not continuesWord rest
          rw [Option.mem_def.mp head] at stops
          exact stops
      next =>
        simp only at read
        split at read
        next kind punctuation =>
          obtain ⟨rfl, rfl⟩ := EStateM.Result.ok.inj read
          obtain ⟨l, chars, rfl, plain, ends⟩ := Lexeme.exists_sign punctuation
          refine ⟨l, by rw [chars]; rfl, ?_, by rw [chars]; rfl, ends _⟩
          rw [Lexeme.token, plain, chars]
        next => cases read

theorem Lexeme.toList_text (l : Lexeme) (p : Position) : (l.token p).text.toList = l.chars := by
  simp [token, Token.at]

theorem Lexeme.spelled (l : Lexeme) (p : Position) : (l.token p).Spelled := by
  cases l with
  | word chars isWord =>
    refine ⟨fun number => ?_, fun _ => ?_⟩
    · simp only [token, Token.at, kind, TokenKind.ofWord] at number
      split_ifs at number
    · simpa [token, Token.at, Lexeme.chars] using isWord
  | number n => exact ⟨fun _ => ⟨n, rfl, n.contains_point⟩, nofun⟩
  | _ => exact ⟨nofun, nofun⟩

theorem readToken_spelled {start stop : Cursor} {t : Token}
    (read : readToken start = .ok t stop) : t.Spelled := by
  rcases readToken_cases read with ⟨_, rfl, _⟩ | ⟨l, _, rfl, _⟩
  · exact ⟨nofun, nofun⟩
  · exact l.spelled _

theorem nextToken_spelled {cursor stop : Cursor} {t : Token}
    (read : nextToken cursor = .ok t stop) : t.Spelled := by
  unfold nextToken at read
  split at read
  next => exact readToken_spelled read
  next => cases read

/-- What holds of the last token, and of a token and more tokens if it holds of these, holds of all
tokens of a text. -/
theorem Cursor.tokens_induct {P : Cursor → List Token → Prop}
    (last : ∀ {cursor stop : Cursor} {t : Token}, nextToken cursor = .ok t stop → t.kind = .eof →
      P cursor [t])
    (more : ∀ {cursor stop : Cursor} {t : Token} {ts : List Token},
      nextToken cursor = .ok t stop → t.kind ≠ .eof → P stop ts → P cursor (t :: ts))
    {cursor : Cursor} {tokens : List Token} (lexed : cursor.tokens = .ok tokens) :
    P cursor tokens := by
  fun_induction Cursor.tokens cursor generalizing tokens with
  | case1 cursor e stop failed => cases lexed
  | case2 cursor t stop read isEnd =>
    cases lexed
    exact last read isEnd
  | case3 cursor t stop read isToken ih =>
    cases rest : stop.tokens with
    | error e =>
      rw [rest] at lexed
      cases lexed
    | ok ts =>
      rw [rest] at lexed
      cases lexed
      exact more read isToken (ih rest)

/-- The tokens of a text end with its end token, before which stand numerals, words, and signs. -/
theorem Cursor.tokens_spelled {cursor : Cursor} {tokens : List Token}
    (lexed : cursor.tokens = .ok tokens) :
    ∃ body last, tokens = body ++ [last] ∧ last.kind = .eof ∧
      ∀ t ∈ body, t.kind ≠ .eof ∧ t.Spelled := by
  refine tokens_induct (P := fun _ tokens => ∃ body last, tokens = body ++ [last] ∧
    last.kind = .eof ∧ ∀ t ∈ body, t.kind ≠ .eof ∧ t.Spelled) ?_ ?_ lexed
  · intro cursor stop t _ isEnd
    exact ⟨[], t, rfl, isEnd, by simp⟩
  · rintro cursor stop t _ read isToken ⟨body, last, rfl, isEnd, spelled⟩
    refine ⟨t :: body, last, rfl, isEnd, fun u mem => ?_⟩
    rcases List.mem_cons.mp mem with rfl | mem
    · exact ⟨isToken, nextToken_spelled read⟩
    · exact spelled u mem

/-- What holds of every next token holds of all tokens of a text. -/
theorem Cursor.forall_mem_tokens {P : Token → Prop}
    (each : ∀ {cursor stop : Cursor} {t : Token}, nextToken cursor = .ok t stop → P t)
    {cursor : Cursor} {tokens : List Token} (lexed : cursor.tokens = .ok tokens) :
    ∀ t ∈ tokens, P t := by
  refine tokens_induct (P := fun _ tokens => ∀ t ∈ tokens, P t) ?_ ?_ lexed
  · intro cursor stop t read _ u mem
    rw [List.mem_singleton.mp mem]
    exact each read
  · intro cursor stop t ts read _ rest u mem
    rcases List.mem_cons.mp mem with rfl | mem
    · exact each read
    · exact rest u mem

theorem Cursor.tokens_of_next {cursor stop : Cursor} {t : Token}
    (read : nextToken cursor = .ok t stop) (more : t.kind ≠ .eof) :
    cursor.tokens = stop.tokens.map (t :: ·) := by
  rw [Cursor.tokens]
  split
  next e u failed =>
    rw [read] at failed
    cases failed
  next t' stop' read' =>
    rw [read] at read'
    cases read'
    rw [dif_neg more]

theorem Cursor.tokens_of_end {cursor stop : Cursor} {t : Token}
    (read : nextToken cursor = .ok t stop) (last : t.kind = .eof) : cursor.tokens = .ok [t] := by
  rw [Cursor.tokens]
  split
  next e u failed =>
    rw [read] at failed
    cases failed
  next t' stop' read' =>
    rw [read] at read'
    cases read'
    rw [dif_pos last]

theorem Cursor.tokens_of_error {cursor stop : Cursor} {e : LexError}
    (failed : nextToken cursor = .error e stop) : cursor.tokens = .error e := by
  rw [Cursor.tokens]
  split
  next e' u failed' =>
    rw [failed] at failed'
    cases failed'
    rfl
  next t stop' read =>
    rw [failed] at read
    cases read

namespace Token.Spelled

variable {t : Token}

theorem literalValue_of_overlong (spelled : t.Spelled) (overlong : t.Overlong) :
    literalValue t.text t.isDecimal =
      .error (.tooManyDigits (t.text.toList.countP Char.isDigit)) := by
  obtain ⟨number, unpointed, long⟩ := overlong
  obtain ⟨n, text, decimal⟩ := spelled.number number
  have chars : t.text.toList = n.chars := by rw [text, Numeral.text, String.toList_ofList]
  rw [chars, n.countP_isDigit] at long ⊢
  have whole : n.fraction = none := by
    have none := n.contains_point
    rw [List.contains_eq_mem, ← chars, decide_eq_false unpointed] at none
    exact Option.isNone_iff_eq_none.mp (by simpa using none.symm)
  rw [decimal, whole, text]
  simp only [literalValue, Option.isSome_none, Bool.false_eq_true, if_false,
    Numeral.readInteger_text whole, long, if_true]
  rfl

theorem exists_literalValue (spelled : t.Spelled) (number : t.kind = .number)
    (short : ¬t.Overlong) : ∃ value, literalValue t.text t.isDecimal = .ok value := by
  obtain ⟨n, text, decimal⟩ := spelled.number number
  have chars : t.text.toList = n.chars := by rw [text, Numeral.text, String.toList_ofList]
  rw [decimal, text]
  cases behind : n.fraction with
  | none =>
    have unpointed : '.' ∉ t.text.toList := by
      have none := n.contains_point
      rw [behind, ← chars] at none
      simpa using none
    have fits : ¬digitLimit < n.digits.length := by
      intro long
      rw [← n.countP_isDigit, ← chars] at long
      exact short ⟨number, unpointed, long⟩
    refine ⟨.integer n.integer, ?_⟩
    simp only [literalValue, Option.isSome_none, Bool.false_eq_true, if_false,
      Numeral.readInteger_text behind, fits]
    rfl
  | some ds =>
    simp only [literalValue, Option.isSome_some, if_true, Numeral.readDecimal_text behind]
    generalize Binary64.ofDecimal _ _ _ = value
    cases integral : value.isIntegral <;> cases whole : value.truncate? <;>
      exact ⟨_, by simp only [bind, Except.bind, integral, whole]; rfl⟩

end Token.Spelled

end ConstFun
