import ConstFun.Proofs.Grammar
import ConstFun.Proofs.Scanning
import Mathlib.Data.Prod.Lex

namespace ConstFun

/-- A line and a column; lines count first. -/
abbrev TextPlace := Int ×ₗ Int

def Position.place (p : Position) : TextPlace := toLex ((p.line : Int), (p.column : Int))

namespace Span

def start (s : Span) : TextPlace := toLex (s.startLine, s.startColumn)

def stop (s : Span) : TextPlace := toLex (s.endLine, s.endColumn)

/-- A span inside another one. -/
def Within (inner outer : Span) : Prop := outer.start ≤ inner.start ∧ inner.stop ≤ outer.stop

/-- The characters of a text from the start of a span up to its end, where the text starts at a
position. -/
def cutFrom (s : Span) : Position → List Char → List Char
  | _, [] => []
  | p, c :: text =>
    if s.start ≤ p.place ∧ p.place < s.stop then c :: s.cutFrom (p.after c) text
    else s.cutFrom (p.after c) text

/-- The part of a text that a span delimits. -/
def cut (s : Span) (text : String) : String := String.ofList (s.cutFrom .start text.toList)

end Span

namespace Position

theorem place_lt_after (p : Position) (c : Char) : p.place < (p.after c).place := by
  unfold after
  split
  next => exact Prod.Lex.toLex_lt_toLex.mpr (.inl (by dsimp only; omega))
  next => exact Prod.Lex.toLex_lt_toLex.mpr (.inr ⟨rfl, by dsimp only; omega⟩)

theorem place_le_afterText (p : Position) (text : List Char) :
    p.place ≤ (p.afterText text).place := by
  induction text generalizing p with
  | nil => exact le_rfl
  | cons c text ih => exact (p.place_lt_after c).le.trans (ih (p.after c))

/-- Some text moves the place on. -/
theorem place_lt_afterText (p : Position) {text : List Char} (some_char : text ≠ []) :
    p.place < (p.afterText text).place := by
  cases text with
  | nil => exact absurd rfl some_char
  | cons c text => exact (p.place_lt_after c).trans_le (place_le_afterText _ text)

theorem afterText_of_plain {text : List Char} (plain : '\n' ∉ text) (p : Position) :
    p.afterText text = ⟨p.line, p.column + text.length⟩ := by
  induction text generalizing p with
  | nil => rfl
  | cons c text ih =>
    have other : c ≠ '\n' := fun same => plain (by simp [same])
    have step : p.after c = ⟨p.line, p.column + 1⟩ := if_neg other
    have rest := ih (fun mem => plain (by simp [mem])) (p.after c)
    rw [step] at rest
    rw [afterText, List.foldl_cons, step]
    refine rest.trans ?_
    rw [List.length_cons, Nat.add_assoc, Nat.add_comm 1]

end Position

namespace Span

variable {s : Span}

theorem cutFrom_append (s : Span) (p : Position) (text text' : List Char) :
    s.cutFrom p (text ++ text') = s.cutFrom p text ++ s.cutFrom (p.afterText text) text' := by
  induction text generalizing p with
  | nil => rfl
  | cons c text ih =>
    rw [List.cons_append, cutFrom, cutFrom, ih]
    split <;> rfl

theorem cutFrom_before {p : Position} {text : List Char}
    (before : (p.afterText text).place ≤ s.start) : s.cutFrom p text = [] := by
  induction text generalizing p with
  | nil => rfl
  | cons c text ih =>
    have here : p.place < s.start :=
      (p.place_lt_afterText (List.cons_ne_nil c text)).trans_le before
    rw [cutFrom, if_neg fun inside => absurd inside.1 here.not_ge]
    exact ih before

theorem cutFrom_behind {p : Position} {text : List Char} (behind : s.stop ≤ p.place) :
    s.cutFrom p text = [] := by
  induction text generalizing p with
  | nil => rfl
  | cons c text ih =>
    rw [cutFrom, if_neg fun inside => absurd inside.2 behind.not_gt]
    exact ih (behind.trans (p.place_lt_after c).le)

theorem cutFrom_inside {p : Position} {text : List Char} (starts : s.start ≤ p.place)
    (stops : (p.afterText text).place ≤ s.stop) : s.cutFrom p text = text := by
  induction text generalizing p with
  | nil => rfl
  | cons c text ih =>
    have here : p.place < s.stop :=
      (p.place_lt_afterText (List.cons_ne_nil c text)).trans_le stops
    rw [cutFrom, if_pos ⟨starts, here⟩, ih (starts.trans (p.place_lt_after c).le) stops]

/-- A span from the place of some part of a text up to the place behind it delimits this part. -/
theorem cut_of_split {text : String} {before part behind : List Char}
    (split : text.toList = before ++ part ++ behind)
    (starts : s.start = (Position.start.afterText before).place)
    (stops : s.stop = (Position.start.afterText (before ++ part)).place) :
    s.cut text = String.ofList part := by
  have first : s.cutFrom .start before = [] := cutFrom_before starts.ge
  have last : s.cutFrom (Position.start.afterText (before ++ part)) behind = [] :=
    cutFrom_behind stops.le
  rw [Position.afterText_append] at stops
  rw [cut, split, cutFrom_append, last, cutFrom_append, first,
    cutFrom_inside starts.le stops.ge, List.nil_append, List.append_nil]

end Span

/-- A token's text stands on one line, and only the end has none. -/
def Token.Inline (t : Token) : Prop :=
  '\n' ∉ t.text.toList ∧ (t.kind ≠ .eof → t.text.toList ≠ [])

theorem Lexeme.inline [Alphabet] (l : Lexeme) (p : Position) : (l.token p).Inline := by
  unfold Token.Inline
  rw [toList_text]
  refine ⟨?_, fun _ => ?_⟩
  · cases l with
    | word chars isWord => exact isWord.not_mem_of_ascii (by decide)
    | number n =>
      intro mem
      exact n.forall_mem_chars (p := (· ≠ '\n')) (by decide) (by decide) (by decide) _ mem rfl
    | lparen | rparen | colon => simp [chars]
  · obtain ⟨c, rest, starts, _⟩ := l.starts
    simp [starts]

theorem inline_of_tokenize [Alphabet] {text : String} {tokens : List Token}
    (lexed : tokenize text = .ok tokens) : ∀ t ∈ tokens, t.Inline := by
  refine Cursor.forall_mem_tokens ?_ lexed
  intro cursor stop t read
  rcases nextToken_cases read with ⟨_, rfl⟩ | ⟨_, l, _, _, rfl, _⟩
  · exact ⟨by simp [Token.at], fun more => absurd rfl more⟩
  · exact l.inline _

namespace LaidOut

variable {read text : List Char} {body before after : List Piece} {last p : Piece}

theorem tail (laid : LaidOut read text (p :: body) last) :
    LaidOut (read ++ p.chars) ((body ++ [last]).flatMap Piece.chars) body last where
  whole := rfl
  gaps q mem := laid.gaps q (by simp [mem])
  ends := laid.ends
  places before q after split := by
    have place := laid.places (p :: before) q after (by simp [split])
    simpa using place

theorem span_start (laid : LaidOut read text body last)
    (split : body ++ [last] = before ++ p :: after) :
    p.token.span.start =
      (Position.start.afterText (read ++ before.flatMap Piece.chars ++ p.gap)).place := by
  obtain ⟨line, column⟩ := laid.places before p after split
  rw [Position.start_afterText, Position.place, Span.start, Token.span, line, column]

theorem span_stop (laid : LaidOut read text body last)
    (split : body ++ [last] = before ++ p :: after) (inline : p.token.Inline) :
    p.token.span.stop =
      (Position.start.afterText (read ++ before.flatMap Piece.chars ++ p.chars)).place := by
  obtain ⟨line, column⟩ := laid.places before p after split
  rw [Piece.chars, ← List.append_assoc, Position.afterText_append,
    Position.afterText_of_plain inline.1, Position.start_afterText, Position.place, Span.stop,
    Token.span, line, column]
  simp [← String.length_toList]

/-- A token ends before the next one starts. -/
theorem apart (laid : LaidOut read text body last)
    (inline : ∀ p ∈ body ++ [last], p.token.Inline) :
    (body ++ [last]).Pairwise fun a b => a.token.span.stop ≤ b.token.span.start := by
  induction body generalizing read text with
  | nil => simp
  | cons p body ih =>
    rw [List.cons_append, List.pairwise_cons]
    refine ⟨fun q mem => ?_, ih laid.tail fun q mem => inline q (by simp at mem ⊢; tauto)⟩
    obtain ⟨mid, after, split⟩ := List.append_of_mem mem
    have first : p :: body ++ [last] = [] ++ p :: (body ++ [last]) := rfl
    have later : p :: body ++ [last] = (p :: mid) ++ q :: after := by simp [split]
    have between : read ++ (p :: mid).flatMap Piece.chars ++ q.gap =
        read ++ [].flatMap Piece.chars ++ p.chars ++ (mid.flatMap Piece.chars ++ q.gap) := by simp
    rw [laid.span_stop first (inline p (by simp)), laid.span_start later, between,
      Position.afterText_append _ (read ++ [].flatMap Piece.chars ++ p.chars)]
    exact Position.place_le_afterText _ _

theorem filled (laid : LaidOut read text body last) (mem : p ∈ body) (inline : p.token.Inline) :
    p.token.span.start < p.token.span.stop := by
  obtain ⟨before, after, split⟩ := List.append_of_mem mem
  have split : body ++ [last] = before ++ p :: (after ++ [last]) := by simp [split]
  rw [laid.span_stop split inline, laid.span_start split, Piece.chars, ← List.append_assoc,
    Position.afterText_append _ _ p.token.text.toList]
  exact Position.place_lt_afterText _ (inline.2 (laid.gaps p mem).2)

end LaidOut

/-- Tokens in the order in which they stand: each takes some place, and ends before the next. -/
structure InOrder (tokens : List Token) : Prop where
  filled : ∀ t ∈ tokens, t.span.start < t.span.stop
  apart : tokens.Pairwise fun a b => a.span.stop ≤ b.span.start

/-- The span from one token through another. -/
def Token.through (first last : Token) : Span :=
  ⟨first.line, first.column, last.line, last.column + last.text.length⟩

namespace InOrder

variable {tokens tokens' : List Token} {first last t : Token}

theorem sublist (inOrder : InOrder tokens) (sub : tokens'.Sublist tokens) : InOrder tokens' :=
  ⟨fun t mem => inOrder.filled t (sub.subset mem), inOrder.apart.sublist sub⟩

theorem start_le (inOrder : InOrder tokens) (head : tokens.head? = some first) (mem : t ∈ tokens) :
    first.span.start ≤ t.span.start := by
  obtain ⟨rest, rfl⟩ := List.head?_eq_some_iff.mp head
  rcases List.mem_cons.mp mem with rfl | behind
  · exact le_rfl
  · have next := (List.pairwise_cons.mp inOrder.apart).1 t behind
    exact (inOrder.filled first (by simp)).le.trans next

theorem le_stop (inOrder : InOrder tokens) (ends : tokens.getLast? = some last) (mem : t ∈ tokens) :
    t.span.stop ≤ last.span.stop := by
  obtain ⟨rest, rfl⟩ := List.getLast?_eq_some_iff.mp ends
  rcases List.mem_append.mp mem with before | mem
  · have next := (List.pairwise_append.mp inOrder.apart).2.2 t before last (by simp)
    exact next.trans (inOrder.filled last (by simp)).le
  · rw [List.mem_singleton.mp mem]

/-- What stands between two of the tokens stands within them all. -/
theorem within (inOrder : InOrder tokens) (head : tokens.head? = some first)
    (ends : tokens.getLast? = some last) {a b : Token} (left : a ∈ tokens) (right : b ∈ tokens) :
    (a.through b).Within (first.through last) :=
  ⟨inOrder.start_le head left, inOrder.le_stop ends right⟩

end InOrder

/-- The tokens of a text before its end stand in order, and the span of each of them delimits its
text. -/
theorem inOrder_of_tokenize [Alphabet] {text : String} {tokens : List Token}
    (lexed : tokenize text = .ok tokens) :
    InOrder tokens.dropLast ∧ ∀ t ∈ tokens, t.span.cut text = t.text := by
  have inline := inline_of_tokenize lexed
  have fresh : (Cursor.ofText text).position = Position.start.afterText [] := rfl
  obtain ⟨body, last, rfl, laid⟩ := Cursor.tokens_laidOut lexed fresh
  have inline : ∀ p ∈ body ++ [last], p.token.Inline := fun p mem =>
    inline p.token (List.mem_map_of_mem mem)
  have front : ((body ++ [last]).map Piece.token).dropLast = body.map Piece.token := by simp
  rw [front]
  refine ⟨⟨?_, ?_⟩, ?_⟩
  · intro t mem
    obtain ⟨p, here, rfl⟩ := List.mem_map.mp mem
    exact laid.filled here (inline p (by simp [here]))
  · rw [List.pairwise_map]
    exact (laid.apart inline).sublist (List.sublist_append_left body [last])
  · intro t mem
    obtain ⟨p, here, rfl⟩ := List.mem_map.mp mem
    obtain ⟨before, after, split⟩ := List.append_of_mem here
    have whole : text.toList = before.flatMap Piece.chars ++ p.gap ++ p.token.text.toList ++
        after.flatMap Piece.chars := by
      have whole : text.toList = (body ++ [last]).flatMap Piece.chars := laid.whole
      rw [split] at whole
      simpa [Piece.chars] using whole
    have start := laid.span_start split
    have stop := laid.span_stop split (inline p here)
    rw [List.nil_append] at start stop
    rw [Piece.chars, ← List.append_assoc] at stop
    rw [Span.cut_of_split whole start stop, String.ofList_toList]

end ConstFun
