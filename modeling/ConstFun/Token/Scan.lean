import ConstFun.Diagnostic.Code
import ConstFun.Text.Alphabet
import ConstFun.Token.Basic

namespace ConstFun

/-- A line and a column, both from one. -/
structure Position where
  line : Nat
  column : Nat
  deriving DecidableEq, Repr

namespace Position

def start : Position := ⟨1, 1⟩

/-- Only a line feed starts a line. -/
def after (p : Position) (c : Char) : Position :=
  if c = '\n' then ⟨p.line + 1, 1⟩ else ⟨p.line, p.column + 1⟩

def afterText (p : Position) (text : List Char) : Position := text.foldl after p

end Position

structure Cursor where
  rest : List Char
  position : Position
  deriving DecidableEq, Repr

def Cursor.ofText (text : String) : Cursor := ⟨text.toList, .start⟩

inductive LexProblem where
  | unexpectedCharacter (c : Char)
  | unterminatedComment
  | invalidAfterNumber (c : Char)
  deriving DecidableEq, Repr

structure LexError where
  problem : LexProblem
  position : Position
  deriving DecidableEq, Repr

def LexProblem.code : LexProblem → Code
  | .unexpectedCharacter _ => ⟨.lex, 10⟩
  | .unterminatedComment => ⟨.lex, 20⟩
  | .invalidAfterNumber _ => ⟨.lex, 30⟩

def LexError.message (e : LexError) : String :=
  e.problem.code.tag <|
    match e.problem with
    | .unexpectedCharacter c =>
      let place := s!"{e.position.line}:{e.position.column}"
      s!"unexpected character {quoted (String.singleton c)} at {place}"
    | .unterminatedComment => "unterminated block comment"
    | .invalidAfterNumber c => s!"invalid character '{c}' after numeric literal"

/-- Blanks between tokens. -/
def isLayout (c : Char) : Bool := c == ' ' || c == '\t' || c == '\r' || c == '\n'

/-- Where skipping stands: between tokens, in a line comment, or in a block comment. -/
inductive Trivia where
  | between
  | line
  | block
  deriving DecidableEq, Repr

/-- Skips layout and comments. The answer is false if the text ends in an open block comment. A
line comment ends before a line feed or a NUL, and a NUL starts no token. -/
def skipTrivia : Trivia → Position → List Char → Bool × Cursor
  | .between, p, [] => (true, ⟨[], p⟩)
  | .between, p, '/' :: '/' :: rest => skipTrivia .line (p.afterText ['/', '/']) rest
  | .between, p, '/' :: '*' :: rest => skipTrivia .block (p.afterText ['/', '*']) rest
  | .between, p, c :: rest =>
    if isLayout c then skipTrivia .between (p.after c) rest else (true, ⟨c :: rest, p⟩)
  | .line, p, [] => (true, ⟨[], p⟩)
  | .line, p, c :: rest =>
    if c = '\n' then skipTrivia .between (p.after c) rest
    else if c = '\x00' then (true, ⟨c :: rest, p⟩)
    else skipTrivia .line (p.after c) rest
  | .block, p, [] => (false, ⟨[], p⟩)
  | .block, p, '*' :: '/' :: rest => skipTrivia .between (p.afterText ['*', '/']) rest
  | .block, p, c :: rest => skipTrivia .block (p.after c) rest

/-- A digit, or a point before a digit. -/
def startsUnsigned : List Char → Bool
  | '.' :: c :: _ => c.isDigit
  | c :: _ => c.isDigit
  | [] => false

/-- Whether a number stands here, with or without a sign. -/
def startsNumber : List Char → Bool
  | '+' :: rest => startsUnsigned rest
  | '-' :: rest => startsUnsigned rest
  | text => startsUnsigned text

/-- Splits a sign off. -/
def takeSign : List Char → List Char × List Char
  | '+' :: rest => (['+'], rest)
  | '-' :: rest => (['-'], rest)
  | text => ([], text)

/-- Splits the digits of a number off, with a point and the digits after it. -/
def takeUnsigned (text : List Char) : List Char × List Char :=
  let integral := text.takeWhile Char.isDigit
  match text.dropWhile Char.isDigit with
  | '.' :: rest => (integral ++ '.' :: rest.takeWhile Char.isDigit, rest.dropWhile Char.isDigit)
  | rest => (integral, rest)

/-- Splits a number off: a sign, digits, a point, digits. -/
def takeNumber (text : List Char) : List Char × List Char :=
  let (sign, body) := takeSign text
  let (digits, rest) := takeUnsigned body
  (sign ++ digits, rest)

def Token.at (p : Position) (kind : TokenKind) (text : List Char) (isDecimal : Bool := false) :
    Token :=
  ⟨kind, String.ofList text, p.line, p.column, isDecimal⟩

/-- The kind of a token that is one character. -/
def punctuation? (c : Char) : Option TokenKind :=
  if c = '(' then some .lparen
  else if c = ')' then some .rparen
  else if c = ':' then some .colon
  else none

/-- Reads the token at the cursor, where neither layout nor a comment stands. After an unexpected
character the cursor stands behind it, after a number with a bad end before that end. -/
def readToken [Alphabet] (start : Cursor) : EStateM.Result LexError Cursor Token :=
  match start.rest with
  | [] => .ok (.at start.position .eof []) start
  | c :: rest =>
    if startsNumber (c :: rest) then
      let (text, rest) := takeNumber (c :: rest)
      let stop : Cursor := ⟨rest, start.position.afterText text⟩
      match rest.head?.filter continuesWord with
      | some bad => .error ⟨.invalidAfterNumber bad, stop.position⟩ stop
      | none => .ok (.at start.position .number text (text.contains '.')) stop
    else if startsWord c then
      let word := c :: rest.takeWhile continuesWord
      .ok (.at start.position (.ofWord (String.ofList word)) word)
        ⟨rest.dropWhile continuesWord, start.position.afterText word⟩
    else
      let stop : Cursor := ⟨rest, start.position.after c⟩
      match punctuation? c with
      | some kind => .ok (.at start.position kind [c]) stop
      | none => .error ⟨.unexpectedCharacter c, start.position⟩ stop

/-- Takes the next token; an error leaves the cursor where scanning can go on. -/
def nextToken [Alphabet] : EStateM LexError Cursor Token := fun cursor =>
  match skipTrivia .between cursor.position cursor.rest with
  | (true, start) => readToken start
  | (false, stop) => .error ⟨.unterminatedComment, stop.position⟩ stop

theorem skipTrivia_length_le (mode : Trivia) (p : Position) (text : List Char) :
    (skipTrivia mode p text).2.rest.length ≤ text.length := by
  fun_induction skipTrivia mode p text <;> simp_all <;> omega

theorem takeSign_length (text : List Char) :
    (takeSign text).1.length + (takeSign text).2.length = text.length := by
  unfold takeSign
  split <;> simp <;> omega

theorem takeUnsigned_length (text : List Char) :
    (takeUnsigned text).1.length + (takeUnsigned text).2.length = text.length := by
  have whole := congrArg List.length
    (List.takeWhile_append_dropWhile (p := Char.isDigit) (l := text))
  unfold takeUnsigned
  split
  next rest same =>
    have tail := congrArg List.length
      (List.takeWhile_append_dropWhile (p := Char.isDigit) (l := rest))
    simp only [same, List.length_append, List.length_cons] at whole tail ⊢
    omega
  next =>
    simp only [List.length_append] at whole ⊢
    omega

theorem takeUnsigned_nonempty {text : List Char} (starts : startsUnsigned text = true) :
    0 < (takeUnsigned text).1.length := by
  unfold takeUnsigned
  split
  next =>
    simp only [List.length_append, List.length_cons]
    omega
  next rest noPoint =>
    match text with
    | [] => simp [startsUnsigned] at starts
    | c :: rest =>
      by_cases digit : c.isDigit
      · simp [List.takeWhile, digit]
      · by_cases point : c = '.'
        · subst point
          exact absurd (by simp [List.dropWhile, digit]) (noPoint rest)
        · simp_all [startsUnsigned]

theorem takeNumber_length (text : List Char) :
    (takeNumber text).1.length + (takeNumber text).2.length = text.length := by
  have sign := takeSign_length text
  have digits := takeUnsigned_length (takeSign text).2
  simp only [takeNumber, List.length_append]
  omega

theorem takeNumber_nonempty {text : List Char} (starts : startsNumber text = true) :
    0 < (takeNumber text).1.length := by
  have digits : startsUnsigned (takeSign text).2 = true := by
    unfold startsNumber at starts
    unfold takeSign
    split at starts <;> simp_all
  have positive := takeUnsigned_nonempty digits
  simp only [takeNumber, List.length_append]
  omega

/-- A token that is not the end of the text takes at least one character. -/
theorem readToken_shortens [Alphabet] {start stop : Cursor} {t : Token}
    (read : readToken start = .ok t stop) (more : t.kind ≠ .eof) :
    stop.rest.length < start.rest.length := by
  unfold readToken at read
  split at read
  next =>
    obtain ⟨rfl, -⟩ := EStateM.Result.ok.inj read
    exact absurd rfl more
  next c rest same =>
    rw [same]
    split at read
    next starts =>
      have length := takeNumber_length (c :: rest)
      have positive := takeNumber_nonempty starts
      simp only at read
      split at read
      next => cases read
      next =>
        obtain ⟨-, rfl⟩ := EStateM.Result.ok.inj read
        simp only
        omega
    next =>
      split at read
      next =>
        have length := (List.dropWhile_sublist continuesWord (l := rest)).length_le
        obtain ⟨-, rfl⟩ := EStateM.Result.ok.inj read
        simp only [List.length_cons]
        omega
      next =>
        simp only at read
        split at read
        next =>
          obtain ⟨-, rfl⟩ := EStateM.Result.ok.inj read
          simp
        next => cases read

theorem nextToken_shortens [Alphabet] {cursor stop : Cursor} {t : Token}
    (read : nextToken cursor = .ok t stop) (more : t.kind ≠ .eof) :
    stop.rest.length < cursor.rest.length := by
  have skipped := skipTrivia_length_le .between cursor.position cursor.rest
  unfold nextToken at read
  split at read
  next start same =>
    have shorter := readToken_shortens read more
    simp only [same] at skipped
    omega
  next => simp at read

/-- The tokens up to and with the end of the text, or the first error. -/
def Cursor.tokens [Alphabet] (cursor : Cursor) : Except LexError (List Token) :=
  match _read : nextToken cursor with
  | .error e _ => .error e
  | .ok t stop =>
    if _more : t.kind = .eof then .ok [t] else (tokens stop).map (t :: ·)
termination_by cursor.rest.length
decreasing_by exact nextToken_shortens _read _more

/-- The tokens of a text, the last of them its end. -/
def tokenize [Alphabet] (text : String) : Except LexError (List Token) :=
  (Cursor.ofText text).tokens

/-- What `count` calls for a token answer, going on after errors. -/
def Cursor.attempts [Alphabet] (cursor : Cursor) : Nat → List (Except LexError Token)
  | 0 => []
  | count + 1 =>
    match nextToken cursor with
    | .ok t stop => .ok t :: stop.attempts count
    | .error e stop => .error e :: stop.attempts count

end ConstFun
