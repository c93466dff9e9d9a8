import ConstFun.Proofs.Recognition

namespace ConstFun

/-- Two readings of a token that differ in places only. -/
inductive SameReading :
    EStateM.Result LexError Cursor Token → EStateM.Result LexError Cursor Token → Prop
  | ok {t t' : Token} {rest : List Char} {p p' : Position} (shape : t.shape = t'.shape) :
      SameReading (.ok t ⟨rest, p⟩) (.ok t' ⟨rest, p'⟩)
  | error {problem : LexProblem} {p p' : Position} {stop stop' : Cursor} :
      SameReading (.error ⟨problem, p⟩ stop) (.error ⟨problem, p'⟩ stop')

theorem skipTrivia_moved (text : List Char) (p q : Position) (mode : Trivia) :
    ∃ closed rest p' q', skipTrivia mode p text = (closed, ⟨rest, p'⟩) ∧
      skipTrivia mode q text = (closed, ⟨rest, q'⟩) := by
  fun_induction skipTrivia mode p text generalizing q with
  | case1 p => exact ⟨true, [], p, q, rfl, rfl⟩
  | case2 p rest ih => exact ih _
  | case3 p rest ih => exact ih _
  | case4 p c rest noLine noBlock layout ih =>
    rw [skipTrivia_blank q layout]
    exact ih _
  | case5 p c rest noLine noBlock plain =>
    rw [skipTrivia, if_neg plain]
    · exact ⟨true, c :: rest, p, q, rfl, rfl⟩
    · exact noLine
    · exact noBlock
  | case6 p => exact ⟨true, [], p, q, rfl, rfl⟩
  | case7 p rest ih => exact ih _
  | case8 p rest noFeed => exact ⟨true, _, p, q, rfl, rfl⟩
  | case9 p c rest noFeed noNul ih =>
    rw [skipTrivia, if_neg noFeed, if_neg noNul]
    exact ih _
  | case10 p => exact ⟨false, [], p, q, rfl, rfl⟩
  | case11 p rest ih => exact ih _
  | case12 p c rest noClose ih =>
    rw [skipTrivia]
    · exact ih _
    · exact noClose

/-- A line comment goes on with the one that a text ends in, if there is one. -/
theorem IsLastGap.comment {gap body : List Char} (last : IsLastGap gap) (inLine : InLine body) :
    ∃ gap' body', IsGap gap' ∧ InLine body' ∧
      gap ++ '/' :: '/' :: body = gap' ++ '/' :: '/' :: body' := by
  cases last with
  | closed isGap => exact ⟨gap, body, isGap, inLine, rfl⟩
  | @openLine gap' opened isGap inOpened =>
    refine ⟨gap', opened ++ '/' :: '/' :: body, isGap, ?_, by simp⟩
    have noFeed := inOpened.1
    have noNul := inOpened.2
    simp [InLine, inLine.1, inLine.2, noFeed, noNul]

theorem IsLastGap.feed {gap : List Char} (last : IsLastGap gap) : IsGap (gap ++ ['\n']) := by
  cases last with
  | closed isGap => exact isGap.append (.blank rfl .nil)
  | @openLine gap' opened isGap inOpened =>
    have closed : IsGap (gap' ++ '/' :: '/' :: (opened ++ ['\n'])) :=
      isGap.append (.line inOpened .nil)
    simpa using closed

section Transparent

variable [Alphabet]

section Moved

variable (text : List Char) (p q : Position)

theorem readToken_moved : SameReading (readToken ⟨text, p⟩) (readToken ⟨text, q⟩) := by
  unfold readToken
  cases text with
  | nil => exact .ok rfl
  | cons c rest =>
    dsimp only
    split
    · split <;> constructor
      rfl
    · split
      · exact .ok rfl
      · split <;> constructor
        rfl

theorem nextToken_moved : SameReading (nextToken ⟨text, p⟩) (nextToken ⟨text, q⟩) := by
  obtain ⟨closed, rest, p', q', here, there⟩ := skipTrivia_moved text p q .between
  unfold nextToken
  simp only [here, there]
  cases closed with
  | true => exact readToken_moved rest p' q'
  | false => exact .error

end Moved

/-- The shapes of the tokens from here on, or the problem. -/
def Cursor.shapes (cursor : Cursor) : Except LexProblem (List (TokenKind × String × Bool)) :=
  (cursor.tokens.map (List.map Token.shape)).mapError LexError.problem

/-- The shapes of the tokens of a text, or the problem. -/
def scan (text : String) : Except LexProblem (List (TokenKind × String × Bool)) :=
  (Cursor.ofText text).shapes

namespace Cursor

variable {cursor stop : Cursor} {t : Token}

theorem shapes_of_next (read : nextToken cursor = .ok t stop) (more : t.kind ≠ .eof) :
    cursor.shapes = stop.shapes.map (t.shape :: ·) := by
  unfold shapes
  rw [tokens_of_next read more]
  cases stop.tokens <;> rfl

theorem shapes_of_end (read : nextToken cursor = .ok t stop) (last : t.kind = .eof) :
    cursor.shapes = .ok [t.shape] := by
  rw [shapes, tokens_of_end read last]
  rfl

theorem shapes_of_error {e : LexError} (failed : nextToken cursor = .error e stop) :
    cursor.shapes = .error e.problem := by
  rw [shapes, tokens_of_error failed]
  rfl

end Cursor

/-- What is found does not depend on places if the first token does not. -/
theorem SameReading.shapes {here there : Cursor}
    (same : SameReading (nextToken here) (nextToken there)) : here.shapes = there.shapes := by
  -- both readings leave the same text, at two places again
  induction length : here.rest.length using Nat.strong_induction_on generalizing here there with
  | _ n ih =>
  subst length
  generalize first : nextToken here = reading at same
  generalize second : nextToken there = reading' at same
  cases same with
  | @ok t t' rest p p' shape =>
    have kind : t.kind = t'.kind := congrArg Prod.fst shape
    by_cases isEnd : t.kind = .eof
    · rw [Cursor.shapes_of_end first isEnd, Cursor.shapes_of_end second (kind ▸ isEnd), shape]
    · rw [Cursor.shapes_of_next first isEnd, Cursor.shapes_of_next second (kind ▸ isEnd), shape,
        ih _ (nextToken_shortens first isEnd) (nextToken_moved rest p p') rfl]
  | error => rw [Cursor.shapes_of_error first, Cursor.shapes_of_error second]

section Behind

variable {gap : List Char} (rest : List Char) (p : Position)

/-- A gap in front of a text adds no token. -/
theorem IsGap.shapes (isGap : IsGap gap) (q : Position) :
    Cursor.shapes ⟨gap ++ rest, p⟩ = Cursor.shapes ⟨rest, q⟩ := by
  refine SameReading.shapes ?_
  have skipped : nextToken ⟨gap ++ rest, p⟩ = nextToken ⟨rest, p.afterText gap⟩ := by
    simp only [nextToken, isGap.skip]
  rw [skipped]
  exact nextToken_moved rest _ q

/-- A NUL in a line comment is not part of it, and starts no token. -/
theorem IsGap.shapes_nul {body : List Char} (isGap : IsGap gap) (inLine : InLine body) :
    Cursor.shapes ⟨gap ++ '/' :: '/' :: (body ++ '\x00' :: rest), p⟩ =
      .error (.unexpectedCharacter '\x00') := by
  have failed : ∃ place stop, nextToken ⟨gap ++ '/' :: '/' :: (body ++ '\x00' :: rest), p⟩ =
      .error ⟨.unexpectedCharacter '\x00', place⟩ stop := by
    unfold nextToken
    simp only [isGap.skip, skipTrivia, skipTrivia_inLine _ inLine]
    exact ⟨_, _, readToken_single rfl (by decide) _⟩
  obtain ⟨place, stop, failed⟩ := failed
  exact Cursor.shapes_of_error failed

end Behind

/-- What a lexeme ends before, it also ends before when the text goes on behind a delimiter. -/
theorem Lexeme.EndsBefore.append {l : Lexeme} {text rest : List Char} (ends : l.EndsBefore text)
    (delimits : Delimits rest) : l.EndsBefore (text ++ rest) := by
  cases text with
  | nil => exact delimits.endsBefore l
  | cons c text => exact ends

/-- A text that lexes is read the same way before a delimiter, up to its last gap. -/
theorem Cursor.shapes_append {cursor : Cursor} {tokens : List Token}
    (lexed : cursor.tokens = .ok tokens) :
    ∃ (shapes : List (TokenKind × String × Bool)) (gap : List Char) (p : Position),
      IsLastGap gap ∧ ∀ rest, Delimits rest →
        Cursor.shapes ⟨cursor.rest ++ rest, cursor.position⟩ =
          (Cursor.shapes ⟨gap ++ rest, p⟩).map (shapes ++ ·) := by
  refine tokens_induct (P := fun cursor _ => ∃ shapes gap p, IsLastGap gap ∧ ∀ rest,
    Delimits rest → Cursor.shapes ⟨cursor.rest ++ rest, cursor.position⟩ =
      (Cursor.shapes ⟨gap ++ rest, p⟩).map (shapes ++ ·)) ?_ ?_ lexed
  · intro cursor stop t taken isEnd
    rcases nextToken_cases taken with ⟨isGap, _⟩ | ⟨_, l, _, _, rfl, _⟩
    · refine ⟨[], cursor.rest, cursor.position, isGap, fun rest _ => ?_⟩
      cases Cursor.shapes ⟨cursor.rest ++ rest, cursor.position⟩ <;> rfl
    · exact absurd isEnd l.kind_ne_eof
  · rintro cursor stop t _ taken isToken ⟨shapes, gap, p, isGap, behind⟩
    rcases nextToken_cases taken with ⟨_, rfl⟩ | ⟨lead, l, isLead, text, rfl, place, ends⟩
    · exact absurd rfl isToken
    refine ⟨l.shape :: shapes, gap, p, isGap, fun rest delimits => ?_⟩
    have read := nextToken_lexeme isLead l cursor.position (ends.append delimits)
    rw [text, List.append_assoc, List.append_assoc, shapes_of_next read l.kind_ne_eof, ← place,
      behind rest delimits]
    cases Cursor.shapes ⟨gap ++ rest, p⟩ <;> rfl

/-- Behind a text that lexes, a line comment up to its line feed counts as the line feed alone: with
any text behind both, the tokens are the same up to their places, or the problem is. A comment with
a NUL in it is the exception: it ends there, and the NUL is an unexpected character. -/
theorem line_comment_transparent {before : String} {tokens : List Token}
    (lexed : tokenize before = .ok tokens) (body after : String)
    (oneLine : '\n' ∉ body.toList) :
    ('\x00' ∉ body.toList →
      scan (before ++ "//" ++ body ++ "\n" ++ after) = scan (before ++ "\n" ++ after)) ∧
    ('\x00' ∈ body.toList →
      scan (before ++ "//" ++ body ++ "\n" ++ after) = .error (.unexpectedCharacter '\x00')) := by
  have commented : (before ++ "//" ++ body ++ "\n" ++ after).toList =
      before.toList ++ '/' :: '/' :: (body.toList ++ '\n' :: after.toList) := by simp
  have plain : (before ++ "\n" ++ after).toList = before.toList ++ '\n' :: after.toList := by simp
  obtain ⟨shapes, gap, p, last, behind⟩ := Cursor.shapes_append lexed
  have withComment : scan (before ++ "//" ++ body ++ "\n" ++ after) =
      (Cursor.shapes ⟨gap ++ '/' :: '/' :: (body.toList ++ '\n' :: after.toList), p⟩).map
        (shapes ++ ·) := by
    rw [scan, Cursor.ofText, commented]
    exact behind _ (.cons (by decide) _)
  have withFeed : scan (before ++ "\n" ++ after) =
      (Cursor.shapes ⟨gap ++ '\n' :: after.toList, p⟩).map (shapes ++ ·) := by
    rw [scan, Cursor.ofText, plain]
    exact behind _ (.cons (by decide) _)
  rw [withComment, withFeed]
  constructor
  · intro noNul
    obtain ⟨lead, line, isLead, inLine, whole⟩ := last.comment ⟨oneLine, noNul⟩
    have isGap : IsGap (gap ++ '/' :: '/' :: body.toList ++ ['\n']) := by
      have closed := isLead.append (.line inLine .nil)
      rw [whole]
      simpa using closed
    have first := isGap.shapes after.toList p p
    have second := last.feed.shapes after.toList p p
    simp only [List.append_assoc, List.cons_append, List.nil_append] at first second
    rw [first, second]
  · intro nul
    obtain ⟨inside, rest, split, noNul⟩ := List.eq_append_cons_of_mem nul
    have inLine : InLine inside := ⟨fun feed => oneLine (by simp [split, feed]), noNul⟩
    obtain ⟨lead, line, isLead, inLine, whole⟩ := last.comment inLine
    have failed := isLead.shapes_nul (rest ++ '\n' :: after.toList) p inLine
    have text : gap ++ '/' :: '/' :: (body.toList ++ '\n' :: after.toList) =
        lead ++ '/' :: '/' :: (line ++ '\x00' :: (rest ++ '\n' :: after.toList)) := by
      have longer := congrArg (· ++ '\x00' :: (rest ++ '\n' :: after.toList)) whole
      simpa [split] using longer
    rw [text, failed]
    rfl

end Transparent

/-- The comment goes on with one that is open. -/
theorem line_comment_transparent_openComment :
    (tokenize "f(1.// a").isOk = true ∧
      scan "f(1.// a///* b\n): +.5" = .ok [(.ident, "f", false), (.lparen, "(", false),
        (.number, "1.", true), (.rparen, ")", false), (.colon, ":", false),
        (.number, "+.5", true), (.eof, "", false)] ∧
      scan "f(1.// a///* b\n): +.5" = scan "f(1.// a\n): +.5" := by
  have lexes : (tokenize "f(1.// a").isOk = true := by decide +kernel
  refine ⟨lexes, by decide +kernel, ?_⟩
  cases lexed : tokenize "f(1.// a" with
  | error e =>
    rw [lexed] at lexes
    cases lexes
  | ok tokens =>
    exact (line_comment_transparent lexed "/* b" "): +.5" (by decide)).1 (by decide)

/-- A NUL in a comment is not skipped. -/
theorem line_comment_nul_unexpected :
    tokenize "//\x00\n" = .error ⟨.unexpectedCharacter '\x00', ⟨1, 3⟩⟩ ∧
      tokenize "\n" = .ok [.at ⟨2, 1⟩ .eof []] := by
  decide +kernel

end ConstFun
