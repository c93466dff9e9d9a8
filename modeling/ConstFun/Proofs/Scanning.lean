import ConstFun.Proofs.Gaps
import ConstFun.Proofs.Lexemes
import ConstFun.Text.Letter
import Mathlib.Data.List.DropRight

namespace ConstFun

/-- The line behind some text: one more than its line feeds. -/
def lineAfter (read : List Char) : Nat := 1 + read.count '\n'

/-- The column behind some text: one more than the characters since its last line feed. -/
def columnAfter (read : List Char) : Nat := 1 + (read.rtakeWhile (· ≠ '\n')).length

theorem Position.start_afterText (read : List Char) :
    Position.start.afterText read = ⟨lineAfter read, columnAfter read⟩ := by
  induction read using List.reverseRecOn with
  | nil => rfl
  | append_singleton read c ih =>
    rw [Position.afterText_append, ih]
    by_cases feed : c = '\n'
    · simp [afterText, after, lineAfter, columnAfter, feed, Nat.add_assoc]
    · simp [afterText, after, lineAfter, columnAfter, feed, Nat.add_assoc]

/-- No lexeme starts like a gap, nor with a NUL. -/
theorem Lexeme.starts [Alphabet] (l : Lexeme) :
    ∃ c rest, l.chars = c :: rest ∧ isLayout c = false ∧ c ≠ '/' ∧ c ≠ '\x00' := by
  cases l with
  | word chars isWord =>
    obtain ⟨c, rest, rfl, starts, _⟩ := isWord
    have other := fun d => ne_of_startsWord (d := d) starts
    refine ⟨c, rest, rfl, ?_, other _ (by decide), other _ (by decide)⟩
    simp [isLayout, other ' ' (by decide), other '\t' (by decide), other '\r' (by decide),
      other '\n' (by decide)]
  | number n =>
    have plain : ∀ c ∈ n.chars, isLayout c = false ∧ c ≠ '/' ∧ c ≠ '\x00' :=
      n.forall_mem_chars (by decide) (by decide) (by decide)
    obtain ⟨c, rest, body, _⟩ := n.body_starts
    cases chars : n.chars with
    | nil => simp [Numeral.chars, body] at chars
    | cons d rest => exact ⟨d, rest, chars, plain d (by simp [chars])⟩
  | lparen => exact ⟨'(', [], rfl, by decide⟩
  | rparen => exact ⟨')', [], rfl, by decide⟩
  | colon => exact ⟨':', [], rfl, by decide⟩

/-- What the next token is taken from: a gap up to the end of the text, or a gap and a lexeme. -/
theorem nextToken_cases [Alphabet] {cursor stop : Cursor} {t : Token}
    (read : nextToken cursor = .ok t stop) :
    (IsLastGap cursor.rest ∧ t = .at (cursor.position.afterText cursor.rest) .eof []) ∨
      ∃ (gap : List Char) (l : Lexeme), IsGap gap ∧ cursor.rest = gap ++ l.chars ++ stop.rest ∧
        t = l.token (cursor.position.afterText gap) ∧
        stop.position = cursor.position.afterText (gap ++ l.chars) ∧ l.EndsBefore stop.rest := by
  obtain ⟨text, p⟩ := cursor
  have skips := skipTrivia_skips p text
  unfold nextToken at read
  simp only at read
  revert skips read
  generalize skipTrivia .between p text = skipped
  intro read skips
  cases skips with
  | @gap gap rest isGap =>
    rcases readToken_cases read with ⟨empty, rfl, _⟩ | ⟨l, taken, rfl, place, ends⟩
    · have empty : rest = [] := empty
      subst empty
      exact .inl ⟨by simpa using IsLastGap.closed isGap, by simp⟩
    · have taken : rest = l.chars ++ stop.rest := taken
      refine .inr ⟨gap, l, isGap, by simp [taken], rfl, ?_, ends⟩
      rw [place, Position.afterText_append]
  | @line gap body rest isGap inLine stops =>
    rcases readToken_cases read with ⟨empty, rfl, _⟩ | ⟨l, taken, rfl, _⟩
    · have empty : rest = [] := empty
      subst empty
      exact .inl ⟨by simpa using IsLastGap.openLine isGap inLine, by simp⟩
    · -- the comment is stopped by the end of the text or by a NUL, and neither starts a lexeme
      obtain ⟨c, more, chars, _, _, noNul⟩ := l.starts
      have taken : rest = l.chars ++ stop.rest := taken
      rw [chars] at taken
      rcases stops with empty | head
      · simp [taken] at empty
      · simp [taken] at head
        exact absurd head noNul
  | block _ _ => cases read

/-- A token with the gap before it. -/
structure Piece where
  gap : List Char
  token : Token

def Piece.chars (p : Piece) : List Char := p.gap ++ p.token.text.toList

/-- Behind what was read before, the pieces make up a text. The last one is its end; each token
stands at the line and the column where its gap ends. -/
structure LaidOut (read text : List Char) (body : List Piece) (last : Piece) : Prop where
  whole : text = (body ++ [last]).flatMap Piece.chars
  gaps : ∀ p ∈ body, IsGap p.gap ∧ p.token.kind ≠ .eof
  ends : IsLastGap last.gap ∧ last.token.kind = .eof ∧ last.token.text = ""
  places : ∀ (before : List Piece) (p : Piece) (after : List Piece),
    body ++ [last] = before ++ p :: after →
    p.token.line = lineAfter (read ++ before.flatMap Piece.chars ++ p.gap) ∧
      p.token.column = columnAfter (read ++ before.flatMap Piece.chars ++ p.gap)

theorem LaidOut.single (read : List Char) {gap : List Char} (isGap : IsLastGap gap) :
    LaidOut read gap [] ⟨gap, .at (Position.start.afterText (read ++ gap)) .eof []⟩ where
  whole := by simp [Piece.chars, Token.at]
  gaps := by simp
  ends := ⟨isGap, rfl, rfl⟩
  places before p after split := by
    cases before with
    | nil =>
      obtain ⟨rfl, _⟩ := List.cons.inj split
      rw [Position.start_afterText, List.flatMap_nil, List.append_nil]
      exact ⟨rfl, rfl⟩
    | cons first before => simp at split

theorem LaidOut.cons [Alphabet] {read gap text : List Char} {l : Lexeme} {body : List Piece}
    {last : Piece} (isGap : IsGap gap)
    (rest : LaidOut (read ++ (gap ++ l.chars)) text body last) :
    LaidOut read (gap ++ l.chars ++ text)
      (⟨gap, l.token (Position.start.afterText (read ++ gap))⟩ :: body) last where
  whole := by simp [rest.whole, Piece.chars, Lexeme.token, Token.at]
  gaps p mem := by
    rcases List.mem_cons.mp mem with rfl | mem
    · exact ⟨isGap, l.kind_ne_eof⟩
    · exact rest.gaps p mem
  ends := rest.ends
  places before p after split := by
    cases before with
    | nil =>
      obtain ⟨rfl, _⟩ := List.cons.inj split
      rw [Position.start_afterText, List.flatMap_nil, List.append_nil]
      exact ⟨rfl, rfl⟩
    | cons first before =>
      rw [List.cons_append, List.cons_append, List.cons.injEq] at split
      obtain ⟨rfl, split⟩ := split
      simpa [Piece.chars, Lexeme.token, Token.at] using rest.places before p after split

theorem Cursor.tokens_laidOut [Alphabet] {cursor : Cursor} {tokens : List Token}
    (lexed : cursor.tokens = .ok tokens) {read : List Char}
    (here : cursor.position = Position.start.afterText read) :
    ∃ body last, (body ++ [last]).map Piece.token = tokens ∧
      LaidOut read cursor.rest body last := by
  -- each token moves its gap and its text from what is left to what was read
  refine tokens_induct (P := fun cursor tokens => ∀ read,
    cursor.position = Position.start.afterText read → ∃ body last,
      (body ++ [last]).map Piece.token = tokens ∧ LaidOut read cursor.rest body last)
    ?_ ?_ lexed read here
  · intro cursor stop t taken isEnd read here
    rcases nextToken_cases taken with ⟨isGap, rfl⟩ | ⟨gap, l, _, _, rfl, _⟩
    · rw [here, ← Position.afterText_append]
      exact ⟨[], _, rfl, .single read isGap⟩
    · exact absurd isEnd l.kind_ne_eof
  · intro cursor stop t ts taken isToken rest read here
    rcases nextToken_cases taken with ⟨_, rfl⟩ | ⟨gap, l, isGap, text, rfl, place, _⟩
    · exact absurd rfl isToken
    rw [here, ← Position.afterText_append] at place
    obtain ⟨body, last, rfl, laidOut⟩ := rest _ place
    rw [here, ← Position.afterText_append, text]
    exact ⟨_ :: body, last, rfl, laidOut.cons isGap⟩

/-- A text that lexes is the concatenation of its tokens and of the gaps between them, and each
token, the end of the text too, carries the line and the column of its first character. -/
theorem tokenize_lossless [Alphabet] {text : String} {tokens : List Token}
    (lexed : tokenize text = .ok tokens) :
    ∃ body last, (body ++ [last]).map Piece.token = tokens ∧ LaidOut [] text.toList body last :=
  Cursor.tokens_laidOut lexed rfl

/-- Tokens without a gap, a block comment over two lines, a return before a line feed, and a line
comment up to the end. -/
def crowdedText : String := "f(/* a\n* b **/)\r\n\t:+1.5// end"

theorem tokenize_lossless_crowdedText :
    ∃ tokens, tokenize crowdedText = .ok tokens ∧
      tokens.map (fun t => (t.text, t.line, t.column)) =
        [("f", 1, 1), ("(", 1, 2), (")", 2, 8), (":", 3, 2), ("+1.5", 3, 3), ("", 3, 13)] ∧
      ∃ body last, (body ++ [last]).map Piece.token = tokens ∧
        LaidOut [] crowdedText.toList body last := by
  have places : (tokenize crowdedText).toOption.any (fun tokens =>
      decide (tokens.map (fun t => (t.text, t.line, t.column)) =
        [("f", 1, 1), ("(", 1, 2), (")", 2, 8), (":", 3, 2), ("+1.5", 3, 3), ("", 3, 13)])) =
      true := by decide +kernel
  cases lexed : tokenize crowdedText with
  | error e => simp [lexed, Except.toOption] at places
  | ok tokens =>
    simp only [lexed, Except.toOption, Option.any_some, decide_eq_true_eq] at places
    exact ⟨tokens, rfl, places, tokenize_lossless lexed⟩

end ConstFun
