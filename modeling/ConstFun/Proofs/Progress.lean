import ConstFun.Proofs.Scanning
import Mathlib.Logic.Function.Iterate

namespace ConstFun

/-- The token at the end of a text. -/
def Token.endOf (text : String) : Token := .at (Position.start.afterText text.toList) .eof []

namespace Cursor

/-- The second cursor stands behind the first one, and `taken` is the text between them. -/
structure Takes (c : Cursor) (taken : List Char) (stop : Cursor) : Prop where
  rest : c.rest = taken ++ stop.rest
  position : stop.position = c.position.afterText taken

theorem Takes.trans {c stop stop' : Cursor} {taken taken' : List Char} (first : c.Takes taken stop)
    (second : stop.Takes taken' stop') : c.Takes (taken ++ taken') stop' where
  rest := by rw [first.rest, second.rest, List.append_assoc]
  position := by rw [second.position, first.position, Position.afterText_append]

/-- The cursor that an answer leaves, be it a token or an error. -/
def leftBy : EStateM.Result LexError Cursor Token → Cursor
  | .ok _ stop => stop
  | .error _ stop => stop

/-- The cursor behind some of the characters of a text. -/
def behind (text : String) (index : Nat) : Cursor :=
  ⟨text.toList.drop index, Position.start.afterText (text.toList.take index)⟩

theorem ofText_eq_behind (text : String) : ofText text = behind text 0 := rfl

theorem length_rest_behind (text : String) (index : Nat) :
    (behind text index).rest.length = text.length - index := by
  rw [behind, List.length_drop, String.length_toList]

theorem behind_end (text : String) :
    behind text text.length = ⟨[], Position.start.afterText text.toList⟩ := by
  rw [behind, ← String.length_toList, List.drop_length, List.take_length]

theorem Takes.eq_behind {text : String} {index : Nat} {taken : List Char} {stop : Cursor}
    (takes : (behind text index).Takes taken stop) : stop = behind text (index + taken.length) := by
  have left : text.toList.drop index = taken ++ stop.rest := takes.rest
  have rest : stop.rest = text.toList.drop (index + taken.length) := by
    rw [← List.drop_drop, left, List.drop_left]
  have read : text.toList.take (index + taken.length) = text.toList.take index ++ taken := by
    rw [List.take_add, left, List.take_left]
  have position : stop.position = (behind text (index + taken.length)).position := by
    rw [takes.position, behind, behind, read, Position.afterText_append]
  obtain ⟨stopRest, stopPosition⟩ := stop
  exact (Cursor.mk.injEq ..).mpr ⟨rest, position⟩

/-- What the answers to a row of calls come to where calling stops at an error and behind the end;
nothing if the row is over before. -/
def gathered : List (Except LexError Token) → Option (Except LexError (List Token))
  | [] => none
  | .error e :: _ => some (.error e)
  | .ok t :: answers =>
    if t.kind = .eof then some (.ok [t]) else (gathered answers).map fun ts => ts.map (t :: ·)

end Cursor

theorem skipTrivia_takes {c stop : Cursor} {closed : Bool}
    (skipped : skipTrivia .between c.position c.rest = (closed, stop)) :
    ∃ taken, c.Takes taken stop := by
  have skips := skipTrivia_skips c.position c.rest
  rw [skipped] at skips
  obtain ⟨taken, rest, position⟩ := skips.split
  exact ⟨taken, rest, position⟩

theorem rest_of_open {c stop : Cursor}
    (skipped : skipTrivia .between c.position c.rest = (false, stop)) : stop.rest = [] := by
  have skips := skipTrivia_skips c.position c.rest
  rw [skipped] at skips
  generalize c.rest = text at skips
  cases skips
  rfl

section Calls

variable [Alphabet]

/-- Reading takes at least one character: a number with a bad end up to that end, and a character
that starts no token by itself. -/
theorem readToken_takes {start : Cursor} (more : start.rest ≠ []) :
    ∃ taken, taken ≠ [] ∧ start.Takes taken (.leftBy (readToken start)) := by
  unfold readToken
  split
  next empty => exact absurd empty more
  next c rest text =>
    split
    next starts =>
      have whole := takeNumber_append (c :: rest)
      have nonempty := List.length_pos_iff.mp (takeNumber_nonempty starts)
      refine ⟨(takeNumber (c :: rest)).1, nonempty, ?_⟩
      dsimp only
      split <;> exact ⟨text.trans whole.symm, rfl⟩
    next =>
      split
      next =>
        refine ⟨c :: rest.takeWhile continuesWord, List.cons_ne_nil _ _, ?_, rfl⟩
        rw [text]
        exact congrArg _ List.takeWhile_append_dropWhile.symm
      next =>
        refine ⟨[c], List.cons_ne_nil _ _, ?_⟩
        dsimp only
        split <;> exact ⟨text, rfl⟩

namespace Cursor

variable {c : Cursor}

/-- The cursor behind a call for a token. -/
def called (c : Cursor) : Cursor := leftBy (nextToken c)

/-- The cursors to which calls for tokens lead from the start of a text, also calls that fail. -/
inductive Reached (text : String) : Cursor → Prop
  | start : Reached text (.ofText text)
  | token {c stop : Cursor} {t : Token} (before : Reached text c)
      (read : nextToken c = .ok t stop) : Reached text stop
  | error {c stop : Cursor} {e : LexError} (before : Reached text c)
      (failed : nextToken c = .error e stop) : Reached text stop

theorem readToken_of_end (ended : c.rest = []) :
    readToken c = .ok (.at c.position .eof []) c := by
  obtain ⟨rest, p⟩ := c
  obtain rfl : rest = [] := ended
  rfl

/-- Before the end of the text a call takes some of it, whatever it answers. -/
theorem called_takes (more : c.rest ≠ []) : ∃ taken, taken ≠ [] ∧ c.Takes taken c.called := by
  -- where skipping comes to the end it has taken all of the text, and else reading takes some of it
  have all : ∀ {taken stop}, c.Takes taken stop → stop.rest = [] → taken ≠ [] := by
    rintro taken stop takes ended rfl
    exact more (by rw [takes.rest, ended]; rfl)
  unfold called nextToken
  split
  next start skipped =>
    obtain ⟨gap, takes⟩ := skipTrivia_takes skipped
    by_cases ended : start.rest = []
    · refine ⟨gap, all takes ended, ?_⟩
      rw [readToken_of_end ended]
      exact takes
    · obtain ⟨taken, nonempty, behind⟩ := readToken_takes ended
      exact ⟨gap ++ taken, by simp [nonempty], takes.trans behind⟩
  next stop skipped =>
    obtain ⟨gap, takes⟩ := skipTrivia_takes skipped
    exact ⟨gap, all takes (rest_of_open skipped), takes⟩

variable {text : String} {index : Nat}

/-- A call before the end of a text moves on in it. -/
theorem called_behind (before : index < text.length) :
    ∃ further, index < further ∧ further ≤ text.length ∧
      (behind text index).called = behind text further := by
  have left := length_rest_behind text index
  have more : (behind text index).rest ≠ [] := by
    intro empty
    rw [empty, List.length_nil] at left
    omega
  obtain ⟨taken, nonempty, takes⟩ := called_takes more
  have some_taken := List.length_pos_iff.mpr nonempty
  have whole := congrArg List.length takes.rest
  rw [left, List.length_append] at whole
  exact ⟨index + taken.length, by omega, by omega, takes.eq_behind⟩

theorem nextToken_behind_end (text : String) :
    nextToken (behind text text.length) = .ok (.endOf text) (behind text text.length) := by
  rw [behind_end]
  rfl

theorem called_behind_end (text : String) :
    (behind text text.length).called = behind text text.length := by
  rw [called, nextToken_behind_end]
  rfl

/-- One call leads from a place in a text to another one, further on unless it is the end. -/
theorem exists_called (within : index ≤ text.length) :
    ∃ further, min (index + 1) text.length ≤ further ∧ further ≤ text.length ∧
      (behind text index).called = behind text further := by
  rcases Nat.lt_or_eq_of_le within with before | rfl
  · obtain ⟨further, on, bound, moved⟩ := called_behind before
    exact ⟨further, by omega, bound, moved⟩
  · exact ⟨text.length, by omega, le_rfl, called_behind_end text⟩

/-- So many calls move on by so many characters at least, or to the end. -/
theorem exists_calls (within : index ≤ text.length) (calls : Nat) :
    ∃ further, min (index + calls) text.length ≤ further ∧ further ≤ text.length ∧
      called^[calls] (behind text index) = behind text further := by
  induction calls with
  | zero => exact ⟨index, by omega, within, rfl⟩
  | succ calls ih =>
    obtain ⟨further, passed, bound, moved⟩ := ih
    obtain ⟨last, on, bound', moved'⟩ := exists_called bound
    refine ⟨last, by omega, bound', ?_⟩
    rw [Function.iterate_succ_apply', moved, moved']

theorem calls_end (within : index ≤ text.length) {calls : Nat} (enough : text.length ≤ calls) :
    called^[calls] (behind text index) = behind text text.length := by
  obtain ⟨further, passed, bound, moved⟩ := exists_calls within calls
  obtain rfl : further = text.length := by omega
  exact moved

theorem Reached.exists_behind (reached : Reached text c) :
    ∃ index ≤ text.length, c = behind text index := by
  have step : ∀ {c : Cursor}, (∃ index ≤ text.length, c = behind text index) →
      ∃ index ≤ text.length, c.called = behind text index := by
    rintro c ⟨index, within, rfl⟩
    obtain ⟨further, _, bound, moved⟩ := exists_called within
    exact ⟨further, bound, moved⟩
  induction reached with
  | start => exact ⟨0, Nat.zero_le _, ofText_eq_behind text⟩
  | token _ read ih =>
    have next := step ih
    rw [called, read] at next
    exact next
  | error _ failed ih =>
    have next := step ih
    rw [called, failed] at next
    exact next

theorem attempts_add (c : Cursor) (calls more : Nat) :
    c.attempts (calls + more) = c.attempts calls ++ (called^[calls] c).attempts more := by
  induction calls generalizing c with
  | zero => simp [attempts]
  | succ calls ih =>
    rw [Nat.succ_add, Function.iterate_succ_apply, attempts, attempts, called]
    cases nextToken c with
    | ok t stop => exact congrArg _ (ih stop)
    | error e stop => exact congrArg _ (ih stop)

theorem attempts_end (text : String) (count : Nat) :
    (behind text text.length).attempts count = List.replicate count (.ok (.endOf text)) := by
  induction count with
  | zero => rfl
  | succ count ih =>
    rw [attempts, nextToken_behind_end, List.replicate_succ, ← ih]

/-- One call more than there are characters left is enough for all tokens. -/
theorem gathered_attempts {count : Nat} (enough : c.rest.length < count) :
    gathered (c.attempts count) = some c.tokens := by
  induction count generalizing c with
  | zero => omega
  | succ count ih =>
    cases answer : nextToken c with
    | error e stop => simp only [attempts, answer, gathered, tokens_of_error answer]
    | ok t stop =>
      by_cases last : t.kind = .eof
      · simp only [attempts, answer, gathered, tokens_of_end answer last, if_pos last]
      · have shorter := nextToken_shortens answer last
        simp only [attempts, answer, gathered, tokens_of_next answer last, if_neg last,
          ih (c := stop) (by omega), Option.map_some]

/-- Calls for tokens come to the end of a text and stay there. Wherever calls have led, failed ones
too, a call before the end moves on, be its answer a token or an error, and a call at the end gives
the end and changes nothing. As many calls as the text has characters reach the end, whatever their
answers; and with one call more the tokens are complete, or the first error is found. -/
theorem Reached.advances_to_end (reached : Reached text c) :
    (∃ index ≤ text.length, c = behind text index ∧
      (index < text.length → ∃ further, index < further ∧ further ≤ text.length ∧
        ((∃ t, nextToken c = .ok t (behind text further)) ∨
          ∃ e, nextToken c = .error e (behind text further))) ∧
      (index = text.length → nextToken c = .ok (.endOf text) c)) ∧
    (∀ more, c.attempts (text.length + more) =
        c.attempts text.length ++ List.replicate more (.ok (.endOf text)) ∧
      called^[text.length + more] c = behind text text.length) ∧
    ∀ count, text.length < count → gathered (c.attempts count) = some c.tokens := by
  obtain ⟨index, within, rfl⟩ := reached.exists_behind
  refine ⟨⟨index, within, rfl, fun before => ?_, ?_⟩, fun more => ⟨?_, ?_⟩, fun count enough => ?_⟩
  · obtain ⟨further, on, bound, moved⟩ := called_behind before
    refine ⟨further, on, bound, ?_⟩
    cases answer : nextToken (behind text index) with
    | ok t stop =>
      rw [called, answer] at moved
      exact .inl ⟨t, congrArg _ moved⟩
    | error e stop =>
      rw [called, answer] at moved
      exact .inr ⟨e, congrArg _ moved⟩
  · rintro rfl
    exact nextToken_behind_end text
  · rw [attempts_add, calls_end within le_rfl, attempts_end]
  · exact calls_end within (Nat.le_add_right _ _)
  · have left := length_rest_behind text index
    exact gathered_attempts (by omega)

end Cursor

end Calls

namespace Cursor

/-- A line comment that a NUL ends, a number with a bad end, and an open block comment. -/
def mangledText : String := "//\x00 1x /*"

/-- Two calls fail before the cursor stands at the bad end of the number. -/
theorem Reached.advances_to_end_mangledText :
    Reached mangledText (behind mangledText 5) ∧
      (behind mangledText 5).attempts 9 =
        [.ok ⟨.ident, "x", 1, 6, false⟩, .error ⟨.unterminatedComment, ⟨1, 10⟩⟩] ++
          List.replicate 7 (.ok (.endOf mangledText)) ∧
      (∃ index ≤ 9, behind mangledText 5 = behind mangledText index ∧
        (index < 9 → ∃ further, index < further ∧ further ≤ 9 ∧
          ((∃ t, nextToken (behind mangledText 5) = .ok t (behind mangledText further)) ∨
            ∃ e, nextToken (behind mangledText 5) = .error e (behind mangledText further)))) ∧
      (behind mangledText 5).attempts 12 = (behind mangledText 5).attempts 9 ++
        List.replicate 3 (.ok (.endOf mangledText)) ∧
      gathered ((behind mangledText 5).attempts 10) = some (behind mangledText 5).tokens := by
  have nul : nextToken (ofText mangledText) =
      .error ⟨.unexpectedCharacter '\x00', ⟨1, 3⟩⟩ (behind mangledText 3) := rfl
  have number : nextToken (behind mangledText 3) =
      .error ⟨.invalidAfterNumber 'x', ⟨1, 6⟩⟩ (behind mangledText 5) := rfl
  have reached : Reached mangledText (behind mangledText 5) := .error (.error .start nul) number
  obtain ⟨⟨index, within, here, forward, _⟩, row, whole⟩ := reached.advances_to_end
  exact ⟨reached, by decide, ⟨index, within, here, forward⟩, (row 3).1, whole 10 (by decide)⟩

end Cursor

end ConstFun
