import ConstFun.Proofs.Scanning

namespace ConstFun

section Spans

variable {α : Type} {p : α → Bool} {body rest : List α}

theorem takeWhile_stops (inside : ∀ a ∈ body, p a = true)
    (stops : ∀ a ∈ rest.head?, p a = false) : (body ++ rest).takeWhile p = body := by
  rw [List.takeWhile_append_of_pos inside]
  cases rest with
  | nil => simp
  | cons a rest => simp [stops a rfl]

theorem dropWhile_stops (inside : ∀ a ∈ body, p a = true)
    (stops : ∀ a ∈ rest.head?, p a = false) : (body ++ rest).dropWhile p = rest := by
  rw [List.dropWhile_append_of_pos inside]
  cases rest with
  | nil => rfl
  | cons a rest => simp [stops a rfl]

end Spans

namespace Numeral

variable (n : Numeral)

theorem takeSign_chars (rest : List Char) :
    takeSign (n.chars ++ rest) = (n.sign, n.body ++ rest) := by
  obtain ⟨c, more, starts, kind⟩ := n.body_starts
  have apart : c ≠ '+' ∧ c ≠ '-' := by
    constructor <;> (rintro rfl; revert kind; decide)
  unfold chars
  rcases n.sign_cases with sign | sign | sign
  · rw [sign, starts]
    simp only [List.nil_append, List.cons_append]
    unfold takeSign
    split
    next eq => exact absurd (List.cons.inj eq).1 apart.1
    next eq => exact absurd (List.cons.inj eq).1 apart.2
    next => rfl
  · rw [sign]
    rfl
  · rw [sign]
    rfl

theorem startsUnsigned_body (rest : List Char) : startsUnsigned (n.body ++ rest) = true := by
  unfold body
  cases integral : n.integral with
  | cons c digits =>
    have digit := n.integral_digits c (by simp [integral])
    have noPoint : c ≠ '.' := by
      rintro rfl
      revert digit
      decide
    simp [startsUnsigned, noPoint, digit]
  | nil =>
    have some_digit := n.nonempty
    cases fraction : n.fraction with
    | none => simp [integral, fraction] at some_digit
    | some ds =>
      cases ds with
      | nil => simp [integral, fraction] at some_digit
      | cons d ds =>
        have digit := n.fraction_digits d (by simp [fraction])
        simp [startsUnsigned, digit]

theorem startsNumber_chars (rest : List Char) : startsNumber (n.chars ++ rest) = true := by
  have body := n.startsUnsigned_body rest
  have sign := n.takeSign_chars rest
  unfold startsNumber
  unfold takeSign at sign
  split at sign <;> simp_all

end Numeral

theorem IsLastGap.behind {lead gap : List Char} (isGap : IsGap lead) (last : IsLastGap gap) :
    IsLastGap (lead ++ gap) := by
  cases last with
  | closed more => exact .closed (isGap.append more)
  | openLine more inLine =>
    rw [← List.append_assoc]
    exact .openLine (isGap.append more) inLine

/-- A token without its place. -/
def Token.shape (t : Token) : TokenKind × String × Bool := (t.kind, t.text, t.isDecimal)

section Recognition

variable [Alphabet]

/-- What follows goes on with neither a word nor a number. -/
def Delimits (rest : List Char) : Prop := ∀ c ∈ rest.head?, continuesWord c = false ∧ c ≠ '.'

theorem continuesWord_of_isDigit {c : Char} (digit : c.isDigit = true) : continuesWord c = true :=
  continuesWord_ascii (forall_isDigit (p := (AsciiContinues · true)) (by decide) digit)

theorem not_isDigit_of_not_continuesWord {c : Char} (stops : continuesWord c = false) :
    c.isDigit = false := by
  by_contra digit
  rw [Bool.not_eq_false] at digit
  rw [continuesWord_of_isDigit digit] at stops
  cases stops

theorem Delimits.endsBefore {rest : List Char} (delimits : Delimits rest) (l : Lexeme) :
    l.EndsBefore rest := by
  cases l with
  | word chars isWord => exact fun c head => (delimits c head).1
  | number n => exact fun c head => ⟨(delimits c head).1, fun _ => (delimits c head).2⟩
  | lparen | rparen | colon => trivial

theorem Delimits.cons {c : Char} (other : AsciiContinues c false ∧ c ≠ '.') (rest : List Char) :
    Delimits (c :: rest) := by
  intro d head
  obtain rfl := Option.some.inj head
  exact ⟨continuesWord_ascii other.1, other.2⟩

theorem IsGap.delimits {gap : List Char} (isGap : IsGap gap) : Delimits gap := by
  intro c head
  rcases isGap.head_cases c head with layout | rfl
  · simp only [isLayout, Bool.or_eq_true, beq_iff_eq] at layout
    rcases layout with ((rfl | rfl) | rfl) | rfl <;> exact Delimits.cons (by decide) [] _ rfl
  · exact Delimits.cons (by decide) [] _ rfl

theorem IsLastGap.delimits {gap : List Char} (isGap : IsLastGap gap) : Delimits gap := by
  cases isGap with
  | closed isGap => exact isGap.delimits
  | @openLine gap body isGap _ =>
    cases gap with
    | nil => exact .cons (by decide) _
    | cons d gap => exact isGap.delimits

namespace Numeral

variable (n : Numeral) {rest : List Char}

theorem takeUnsigned_body (ends : (Lexeme.number n).EndsBefore rest) :
    takeUnsigned (n.body ++ rest) = (n.body, rest) := by
  have stops : ∀ c ∈ rest.head?, c.isDigit = false := fun c head =>
    not_isDigit_of_not_continuesWord (ends c head).1
  have point : ∀ more, ∀ c ∈ ('.' :: more).head?, c.isDigit = false := by
    rintro more c head
    obtain rfl := Option.some.inj head
    decide
  unfold takeUnsigned body
  cases fraction : n.fraction with
  | none =>
    simp only [Option.elim_none, List.append_nil, takeWhile_stops n.integral_digits
      stops, dropWhile_stops n.integral_digits stops]
    split
    next more => exact absurd rfl ((ends '.' rfl).2 fraction)
    next => rfl
  | some ds =>
    have digits : ∀ c ∈ ds, c.isDigit = true := by simpa [fraction] using n.fraction_digits
    simp only [Option.elim_some, List.append_assoc, List.cons_append,
      takeWhile_stops n.integral_digits (point (ds ++ rest)),
      dropWhile_stops n.integral_digits (point (ds ++ rest)),
      takeWhile_stops digits stops, dropWhile_stops digits stops]

theorem takeNumber_chars (ends : (Lexeme.number n).EndsBefore rest) :
    takeNumber (n.chars ++ rest) = (n.chars, rest) := by
  simp only [takeNumber, n.takeSign_chars, n.takeUnsigned_body ends]
  rfl

end Numeral

theorem readToken_number (n : Numeral) (p : Position) {rest : List Char}
    (ends : (Lexeme.number n).EndsBefore rest) :
    readToken ⟨n.chars ++ rest, p⟩ =
      .ok (Lexeme.token (.number n) p) ⟨rest, p.afterText n.chars⟩ := by
  have starts := n.startsNumber_chars rest
  have taken := n.takeNumber_chars ends
  have ended : rest.head?.filter continuesWord = none := by
    cases rest with
    | nil => rfl
    | cons c rest => simp [(ends c rfl).1]
  obtain ⟨c, more, chars, _⟩ := (Lexeme.number n).starts
  have chars : n.chars = c :: more := chars
  have whole : n.chars ++ rest = c :: (more ++ rest) := by rw [chars]; rfl
  unfold readToken
  simp only [whole]
  rw [← whole, if_pos starts, taken]
  simp only [ended]
  rfl

theorem startsNumber_of_startsWord {c : Char} (starts : startsWord c = true) (rest : List Char) :
    startsNumber (c :: rest) = false := by
  have other := fun d => ne_of_startsWord (d := d) starts
  have noDigit : c.isDigit = false := by
    by_contra digit
    rw [Bool.not_eq_false] at digit
    exact other c (forall_isDigit (p := (AsciiStarts · false)) (by decide) digit) rfl
  simp [startsNumber, startsUnsigned, other '+' (by decide), other '-' (by decide),
    other '.' (by decide), noDigit]

theorem readToken_word {chars : List Char} (isWord : IsWord chars) (p : Position)
    {rest : List Char} (stops : ∀ c ∈ rest.head?, continuesWord c = false) :
    readToken ⟨chars ++ rest, p⟩ =
      .ok (Lexeme.token (.word chars isWord) p) ⟨rest, p.afterText chars⟩ := by
  have plain := isWord.no_point
  obtain ⟨c, more, rfl, starts, continues⟩ := id isWord
  unfold readToken
  simp only [List.cons_append, startsNumber_of_startsWord starts, Bool.false_eq_true, if_false,
    starts, if_true, takeWhile_stops continues stops, dropWhile_stops continues stops]
  rw [Lexeme.token, Lexeme.chars, plain]
  rfl

/-- A character that starts neither a number nor a word is read by itself. -/
theorem readToken_single {c : Char} {rest : List Char} (noNumber : startsNumber (c :: rest) = false)
    (noWord : AsciiStarts c false) (p : Position) :
    readToken ⟨c :: rest, p⟩ =
      match punctuation? c with
      | some kind => .ok (.at p kind [c]) ⟨rest, p.after c⟩
      | none => .error ⟨.unexpectedCharacter c, p⟩ ⟨rest, p.after c⟩ := by
  unfold readToken
  cases marks : punctuation? c <;> simp [noNumber, startsWord_ascii noWord, marks]

/-- A lexeme is read as a whole, and nothing of what follows it. -/
theorem readToken_lexeme (l : Lexeme) (p : Position) {rest : List Char}
    (ends : l.EndsBefore rest) :
    readToken ⟨l.chars ++ rest, p⟩ = .ok (l.token p) ⟨rest, p.afterText l.chars⟩ := by
  cases l with
  | word chars isWord => exact readToken_word isWord p ends
  | number n => exact readToken_number n p ends
  | lparen | rparen | colon => exact readToken_single rfl (by decide) p

theorem skipTrivia_lexeme (l : Lexeme) (p : Position) (rest : List Char) :
    skipTrivia .between p (l.chars ++ rest) = (true, ⟨l.chars ++ rest, p⟩) := by
  obtain ⟨c, more, chars, plain, noSlash, _⟩ := l.starts
  rw [chars, List.cons_append, skipTrivia, if_neg (by simp [plain])]
  · exact fun _ eq => absurd eq noSlash
  · exact fun _ eq => absurd eq noSlash

theorem nextToken_lexeme {gap : List Char} (isGap : IsGap gap) (l : Lexeme) (p : Position)
    {rest : List Char} (ends : l.EndsBefore rest) :
    nextToken ⟨gap ++ (l.chars ++ rest), p⟩ =
      .ok (l.token (p.afterText gap)) ⟨rest, p.afterText (gap ++ l.chars)⟩ := by
  unfold nextToken
  simp only [isGap.skip, skipTrivia_lexeme]
  rw [readToken_lexeme l _ ends, Position.afterText_append]

theorem nextToken_end {gap : List Char} (isGap : IsLastGap gap) (p : Position) :
    ∃ stop, nextToken ⟨gap, p⟩ = .ok (.at (p.afterText gap) .eof []) stop := by
  have skipped : skipTrivia .between p gap = (true, ⟨[], p.afterText gap⟩) := by
    cases isGap with
    | closed isGap =>
      have whole := isGap.skip p []
      rw [List.append_nil] at whole
      exact whole
    | @openLine before body isGap inLine =>
      have whole := skipTrivia_inLine ((p.afterText before).afterText ['/', '/']) inLine []
      rw [List.append_nil] at whole
      rw [isGap.skip, skipTrivia, whole, Position.afterText_append, skipTrivia,
        ← Position.afterText_append _ ['/', '/']]
      rfl
  refine ⟨⟨[], p.afterText gap⟩, ?_⟩
  unfold nextToken
  simp only [skipped]
  rfl

/-- The kind and the text of a lexeme, and whether there is a point in it. -/
def Lexeme.shape (l : Lexeme) : TokenKind × String × Bool :=
  (l.kind, String.ofList l.chars, l.chars.contains '.')

/-- The shapes of the tokens for some lexemes: theirs, and the end. -/
def tokenShapes (ls : List Lexeme) : List (TokenKind × String × Bool) :=
  ls.map Lexeme.shape ++ [(.eof, "", false)]

/-- Lexemes in a row, with a gap behind each that is not empty before another lexeme. -/
inductive Spaced : List Lexeme → List Char → Prop
  | nil {gap : List Char} (isGap : IsLastGap gap) : Spaced [] gap
  | cons {l : Lexeme} {ls : List Lexeme} {gap text : List Char} (isGap : IsGap gap)
      (apart : ls = [] ∨ gap ≠ []) (more : Spaced ls text) :
      Spaced (l :: ls) (l.chars ++ (gap ++ text))

theorem Spaced.delimits {ls : List Lexeme} {gap text : List Char} (spaced : Spaced ls text)
    (isGap : IsGap gap) (apart : ls = [] ∨ gap ≠ []) : Delimits (gap ++ text) := by
  rcases apart with rfl | nonempty
  · cases spaced with
    | nil last => exact (IsLastGap.behind isGap last).delimits
  · intro c head
    rw [List.head?_append_of_ne_nil _ nonempty] at head
    exact isGap.delimits c head

theorem Spaced.tokens {ls : List Lexeme} {text : List Char} (spaced : Spaced ls text)
    {lead : List Char} (isGap : IsGap lead) (p : Position) :
    ∃ tokens, Cursor.tokens ⟨lead ++ text, p⟩ = .ok tokens ∧
      tokens.map Token.shape = tokenShapes ls := by
  induction spaced generalizing lead p with
  | nil last =>
    obtain ⟨stop, read⟩ := nextToken_end (IsLastGap.behind isGap last) p
    exact ⟨_, Cursor.tokens_of_end read rfl, rfl⟩
  | @cons l ls gap text between apart more ih =>
    have read := nextToken_lexeme isGap l p ((more.delimits between apart).endsBefore l)
    obtain ⟨tokens, lexed, shapes⟩ := ih between (p.afterText (lead ++ l.chars))
    refine ⟨l.token (p.afterText lead) :: tokens, ?_, ?_⟩
    · rw [Cursor.tokens_of_next read l.kind_ne_eof, lexed]
      rfl
    · rw [List.map_cons, shapes]
      rfl

/-- The tokens of a text are lexemes, and then its end. -/
theorem Cursor.tokens_lexemes {cursor : Cursor} {tokens : List Token}
    (lexed : cursor.tokens = .ok tokens) : ∃ ls, tokens.map Token.shape = tokenShapes ls := by
  refine tokens_induct (P := fun _ tokens => ∃ ls, tokens.map Token.shape = tokenShapes ls)
    ?_ ?_ lexed
  · intro cursor stop t taken isEnd
    rcases nextToken_cases taken with ⟨_, rfl⟩ | ⟨gap, l, _, _, rfl, _⟩
    · exact ⟨[], rfl⟩
    · exact absurd isEnd l.kind_ne_eof
  · rintro cursor stop t ts taken isToken ⟨ls, shapes⟩
    rcases nextToken_cases taken with ⟨_, rfl⟩ | ⟨gap, l, _, _, rfl, _⟩
    · exact absurd rfl isToken
    refine ⟨l :: ls, ?_⟩
    rw [List.map_cons, shapes]
    rfl

/-- Lexemes that are joined by blanks, with a blank behind the last or without. -/
theorem spaced_intercalate (ls : List Lexeme) {ends : List (List Char)}
    (closing : ends = [] ∨ ends = [[]]) :
    Spaced ls ([' '].intercalate (ls.map Lexeme.chars ++ ends)) := by
  have blank : IsGap [' '] := .blank rfl .nil
  induction ls with
  | nil => rcases closing with rfl | rfl <;> exact .nil (.closed .nil)
  | cons l ls ih =>
    rw [List.map_cons, List.cons_append]
    by_cases last : ls.map Lexeme.chars ++ ends = []
    · obtain ⟨none, rfl⟩ := List.append_eq_nil_iff.mp last
      obtain rfl := List.map_eq_nil_iff.mp none
      have alone : Spaced [l] (l.chars ++ ([] ++ [])) := .cons .nil (.inl rfl) ih
      simpa using alone
    · rw [List.intercalate_cons_of_ne_nil last, List.append_assoc]
      exact .cons blank (.inr (by simp)) ih

theorem texts_of_shapes {tokens : List Token} {ls : List Lexeme}
    (shapes : tokens.map Token.shape = tokenShapes ls) :
    (tokens.map Token.text).map String.toList = ls.map Lexeme.chars ++ [[]] := by
  have texts := congrArg (List.map fun shape => shape.2.1.toList) shapes
  simpa [tokenShapes, Token.shape, Lexeme.shape, Function.comp_def] using texts

/-- Lexemes with gaps between them are scanned as these lexemes and the end. The tokens of any text
are lexemes of their kinds and the end; and their texts, joined by single blanks with that of the
end or without it, are scanned as the same tokens up to their places. -/
theorem tokenize_recognizes_lexemes :
    (∀ (ls : List Lexeme) (lead text : List Char), IsGap lead → Spaced ls text →
      ∃ tokens, tokenize (String.ofList (lead ++ text)) = .ok tokens ∧
        tokens.map Token.shape = tokenShapes ls) ∧
    ∀ (text : String) (tokens : List Token), tokenize text = .ok tokens →
      (∃ ls, tokens.map Token.shape = tokenShapes ls) ∧
      ∀ words ∈ [tokens.map Token.text, tokens.dropLast.map Token.text],
        ∃ again, tokenize (" ".intercalate words) = .ok again ∧
          again.map Token.shape = tokens.map Token.shape := by
  have scanned : ∀ (ls : List Lexeme) (lead text : List Char), IsGap lead → Spaced ls text →
      ∃ tokens, tokenize (String.ofList (lead ++ text)) = .ok tokens ∧
        tokens.map Token.shape = tokenShapes ls := by
    intro ls lead text isGap spaced
    unfold tokenize Cursor.ofText
    rw [String.toList_ofList]
    exact spaced.tokens isGap .start
  refine ⟨scanned, fun text tokens lexed => ?_⟩
  obtain ⟨ls, shapes⟩ := Cursor.tokens_lexemes lexed
  refine ⟨⟨ls, shapes⟩, fun words mem => ?_⟩
  have texts := texts_of_shapes shapes
  have before : (tokens.dropLast.map Token.text).map String.toList = ls.map Lexeme.chars ++ [] := by
    rw [List.map_dropLast, List.map_dropLast, texts, List.dropLast_concat, List.append_nil]
  have joined : ∃ ends, (ends = [] ∨ ends = [[]]) ∧
      words.map String.toList = ls.map Lexeme.chars ++ ends := by
    rcases List.mem_pair.mp mem with rfl | rfl
    · exact ⟨[[]], .inr rfl, texts⟩
    · exact ⟨[], .inl rfl, before⟩
  obtain ⟨ends, closing, same⟩ := joined
  obtain ⟨again, lexed', shapes'⟩ := scanned ls [] _ .nil (spaced_intercalate ls closing)
  refine ⟨again, ?_, shapes'.trans shapes.symm⟩
  rw [← lexed', ← same, List.nil_append]
  congr 1
  rw [← String.toList_inj, String.toList_intercalate]
  exact String.toList_ofList.symm

end Recognition

/-- A keyword, a name that starts with it, a sign, and numbers that start and end with the point. -/
def mixedLexemes : List Lexeme :=
  [.word ['a', 's'] ⟨'a', ['s'], rfl, rfl, List.forall_mem_singleton.mpr rfl⟩,
    .word ['a', 's', '1'] ⟨'a', ['s', '1'], rfl, rfl,
      List.forall_mem_cons.mpr ⟨rfl, List.forall_mem_singleton.mpr rfl⟩⟩,
    .number ⟨['+'], [], some ['5'], by simp, by simp, by simp, by simp⟩, .colon,
    .number ⟨['-'], ['7'], some [], by simp, by simp, by simp, by simp⟩]

theorem mixedLexemes_spaced : Spaced mixedLexemes "as/*:*/as1//7\n+.5 :\t-7.".toList := by
  have block : IsGap ['/', '*', ':', '*', '/'] := @IsGap.block [':'] [] (by decide) .nil
  have line : IsGap ['/', '/', '7', '\n'] := @IsGap.line ['7'] [] (by decide) .nil
  have blank : IsGap [' '] := .blank rfl .nil
  have tab : IsGap ['\t'] := .blank rfl .nil
  exact .cons block (.inr (by simp)) (.cons line (.inr (by simp)) (.cons blank (.inr (by simp))
    (.cons tab (.inr (by simp)) (.cons .nil (.inl rfl) (.nil (.closed .nil))))))

theorem tokenize_recognizes_mixedLexemes :
    Spaced mixedLexemes "as/*:*/as1//7\n+.5 :\t-7.".toList ∧
      ∃ tokens, tokenize "as/*:*/as1//7\n+.5 :\t-7." = .ok tokens ∧
        tokens.map Token.shape = [(.asWord, "as", false), (.ident, "as1", false),
          (.number, "+.5", true), (.colon, ":", false), (.number, "-7.", true), (.eof, "", false)] ∧
        ∃ again, tokenize (" ".intercalate (tokens.map Token.text)) = .ok again ∧
          again.map Token.shape = tokens.map Token.shape := by
  obtain ⟨scanned, read⟩ := tokenize_recognizes_lexemes
  obtain ⟨tokens, lexed, shapes⟩ := scanned mixedLexemes [] _ .nil mixedLexemes_spaced
  rw [List.nil_append, String.ofList_toList] at lexed
  exact ⟨mixedLexemes_spaced, tokens, lexed, shapes, (read _ tokens lexed).2 _ (by simp)⟩

end ConstFun
