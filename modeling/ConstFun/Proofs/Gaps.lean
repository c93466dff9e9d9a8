import ConstFun.Token.Scan
import Mathlib.Data.List.Infix

namespace ConstFun

/-- Nothing in the body of a line comment ends it. -/
def InLine (body : List Char) : Prop := '\n' ∉ body ∧ '\x00' ∉ body

/-- The body of a block comment does not hold the close. -/
def InBlock (body : List Char) : Prop := ¬['*', '/'] <:+: body

instance (body : List Char) : Decidable (InLine body) := inferInstanceAs (Decidable (_ ∧ _))

instance (body : List Char) : Decidable (InBlock body) := inferInstanceAs (Decidable (¬_))

/-- Blanks, line comments with their line feeds, and closed block comments, in any number. -/
inductive IsGap : List Char → Prop
  | nil : IsGap []
  | blank {c : Char} {gap : List Char} (layout : isLayout c = true) (more : IsGap gap) :
      IsGap (c :: gap)
  | line {body gap : List Char} (inLine : InLine body) (more : IsGap gap) :
      IsGap ('/' :: '/' :: (body ++ '\n' :: gap))
  | block {body gap : List Char} (inBlock : InBlock body) (more : IsGap gap) :
      IsGap ('/' :: '*' :: (body ++ '*' :: '/' :: gap))

namespace IsGap

variable {gap gap' : List Char}

theorem append (first : IsGap gap) (second : IsGap gap') : IsGap (gap ++ gap') := by
  induction first with
  | nil => exact second
  | blank layout _ ih => exact .blank layout ih
  | line inLine _ ih => simpa using IsGap.line inLine ih
  | block inBlock _ ih => simpa using IsGap.block inBlock ih

/-- A gap starts with a blank or with the slash of a comment. -/
theorem head_cases (isGap : IsGap gap) : ∀ c ∈ gap.head?, isLayout c = true ∨ c = '/' := by
  intro c head
  cases isGap with
  | nil => simp at head
  | blank layout _ =>
    obtain rfl := Option.some.inj head
    exact .inl layout
  | line _ _ | block _ _ =>
    obtain rfl := Option.some.inj head
    exact .inr rfl

end IsGap

theorem Position.afterText_append (p : Position) (first second : List Char) :
    p.afterText (first ++ second) = (p.afterText first).afterText second :=
  List.foldl_append ..

theorem InLine.cons_iff {c : Char} {body : List Char} :
    InLine (c :: body) ↔ c ≠ '\n' ∧ c ≠ '\x00' ∧ InLine body := by
  simp only [InLine, List.mem_cons, not_or, ne_eq, eq_comm (a := c)]
  tauto

theorem InBlock.cons_iff {c : Char} {body : List Char} :
    InBlock (c :: body) ↔ ¬(c = '*' ∧ body.head? = some '/') ∧ InBlock body := by
  have first : ['*', '/'] <+: c :: body ↔ c = '*' ∧ body.head? = some '/' := by
    cases body <;> simp [List.cons_prefix_cons, eq_comm]
  simp only [InBlock, List.infix_cons_iff, first, not_or]

section Comments

variable {body : List Char} (p : Position)

theorem skipTrivia_inLine (inLine : InLine body) (rest : List Char) :
    skipTrivia .line p (body ++ rest) = skipTrivia .line (p.afterText body) rest := by
  induction body generalizing p with
  | nil => rfl
  | cons c body ih =>
    obtain ⟨noFeed, noNul, inLine⟩ := InLine.cons_iff.mp inLine
    rw [List.cons_append, skipTrivia, if_neg noFeed, if_neg noNul, ih _ inLine]
    rfl

theorem skipTrivia_inBlock {c : Char} {rest : List Char}
    (inside : ¬(c = '*' ∧ rest.head? = some '/')) :
    skipTrivia .block p (c :: rest) = skipTrivia .block (p.after c) rest := by
  rw [skipTrivia]
  rintro tail rfl rfl
  exact inside ⟨rfl, rfl⟩

theorem skipTrivia_closedBlock (inBlock : InBlock body) (rest : List Char) :
    skipTrivia .block p (body ++ '*' :: '/' :: rest) =
      skipTrivia .between (p.afterText (body ++ ['*', '/'])) rest := by
  induction body generalizing p with
  | nil => rfl
  | cons c body ih =>
    obtain ⟨inside, inBlock⟩ := InBlock.cons_iff.mp inBlock
    have stays : ¬(c = '*' ∧ (body ++ '*' :: '/' :: rest).head? = some '/') := by
      cases body <;> simp_all
    rw [List.cons_append, skipTrivia_inBlock p stays, ih _ inBlock]
    rfl

theorem skipTrivia_openBlock (inBlock : InBlock body) :
    skipTrivia .block p body = (false, ⟨[], p.afterText body⟩) := by
  induction body generalizing p with
  | nil => rfl
  | cons c body ih =>
    obtain ⟨inside, inBlock⟩ := InBlock.cons_iff.mp inBlock
    rw [skipTrivia_inBlock p inside, ih _ inBlock]
    rfl

end Comments

theorem skipTrivia_blank (p : Position) {c : Char} (layout : isLayout c = true)
    (rest : List Char) :
    skipTrivia .between p (c :: rest) = skipTrivia .between (p.after c) rest := by
  have noSlash : c ≠ '/' := by
    rintro rfl
    simp [isLayout] at layout
  rw [skipTrivia, if_pos layout]
  · exact fun _ eq => absurd eq noSlash
  · exact fun _ eq => absurd eq noSlash

/-- A gap is skipped, and then what follows it. -/
theorem IsGap.skip {gap : List Char} (isGap : IsGap gap) (p : Position) (rest : List Char) :
    skipTrivia .between p (gap ++ rest) = skipTrivia .between (p.afterText gap) rest := by
  induction isGap generalizing p with
  | nil => rfl
  | blank layout _ ih =>
    rw [List.cons_append, skipTrivia_blank p layout, ih]
    rfl
  | @line body gap inLine _ ih =>
    have body_skipped : skipTrivia .between p ('/' :: '/' :: (body ++ '\n' :: (gap ++ rest))) =
        skipTrivia .between ((p.afterText ['/', '/']).afterText (body ++ ['\n']))
          (gap ++ rest) := by
      rw [skipTrivia, skipTrivia_inLine _ inLine, skipTrivia, if_pos rfl,
        Position.afterText_append _ body]
      rfl
    simp only [List.cons_append, List.append_assoc]
    rw [body_skipped, ih, ← Position.afterText_append, ← Position.afterText_append]
    simp
  | @block body gap inBlock _ ih =>
    simp only [List.cons_append, List.append_assoc]
    rw [skipTrivia, skipTrivia_closedBlock _ inBlock, ih, ← Position.afterText_append,
      ← Position.afterText_append]
    simp

/-- A gap at the end of a text, where a last line comment may be without its line feed. -/
inductive IsLastGap : List Char → Prop
  | closed {gap : List Char} (isGap : IsGap gap) : IsLastGap gap
  | openLine {gap body : List Char} (isGap : IsGap gap) (inLine : InLine body) :
      IsLastGap (gap ++ '/' :: '/' :: body)

/-- How skipping a text ends: behind a gap, in a line comment that the end of the text or a NUL
stops, or at the end of the text in a block comment. -/
inductive Skips (p : Position) : List Char → Bool × Cursor → Prop
  | gap {gap rest : List Char} (isGap : IsGap gap) :
      Skips p (gap ++ rest) (true, ⟨rest, p.afterText gap⟩)
  | line {gap body rest : List Char} (isGap : IsGap gap) (inLine : InLine body)
      (stops : rest = [] ∨ rest.head? = some '\x00') :
      Skips p (gap ++ '/' :: '/' :: (body ++ rest))
        (true, ⟨rest, p.afterText (gap ++ '/' :: '/' :: body)⟩)
  | block {gap body : List Char} (isGap : IsGap gap) (inBlock : InBlock body) :
      Skips p (gap ++ '/' :: '*' :: body) (false, ⟨[], p.afterText (gap ++ '/' :: '*' :: body)⟩)

theorem Skips.behind {p : Position} {before text : List Char} {stop : Bool × Cursor}
    (isGap : IsGap before) (skips : Skips (p.afterText before) text stop) :
    Skips p (before ++ text) stop := by
  cases skips with
  | gap more =>
    rw [← Position.afterText_append, ← List.append_assoc]
    exact .gap (isGap.append more)
  | line more inLine stops =>
    rw [← Position.afterText_append, ← List.append_assoc, ← List.append_assoc]
    exact .line (isGap.append more) inLine stops
  | block more inBlock =>
    rw [← Position.afterText_append, ← List.append_assoc]
    exact .block (isGap.append more) inBlock

/-- What is skipped is a part of the text, and skipping stops behind it. -/
theorem Skips.split {p : Position} {text : List Char} {closed : Bool} {stop : Cursor}
    (skips : Skips p text (closed, stop)) :
    ∃ taken, text = taken ++ stop.rest ∧ stop.position = p.afterText taken := by
  cases skips with
  | gap _ => exact ⟨_, rfl, rfl⟩
  | @line gap body rest _ _ _ => exact ⟨gap ++ '/' :: '/' :: body, by simp, rfl⟩
  | block _ _ => exact ⟨_, (List.append_nil _).symm, rfl⟩

theorem line_split (text : List Char) :
    (∃ body rest, InLine body ∧ text = body ++ '\n' :: rest) ∨
      ∃ body rest, InLine body ∧ text = body ++ rest ∧
        (rest = [] ∨ rest.head? = some '\x00') := by
  induction text with
  | nil => exact .inr ⟨[], [], by simp [InLine], rfl, .inl rfl⟩
  | cons c text ih =>
    by_cases feed : c = '\n'
    · exact .inl ⟨[], text, by simp [InLine], by simp [feed]⟩
    by_cases nul : c = '\x00'
    · exact .inr ⟨[], c :: text, by simp [InLine], rfl, .inr (by simp [nul])⟩
    rcases ih with ⟨body, rest, inLine, rfl⟩ | ⟨body, rest, inLine, rfl, stops⟩
    · exact .inl ⟨c :: body, rest, InLine.cons_iff.mpr ⟨feed, nul, inLine⟩, rfl⟩
    · exact .inr ⟨c :: body, rest, InLine.cons_iff.mpr ⟨feed, nul, inLine⟩, rfl, stops⟩

theorem block_split (text : List Char) :
    (∃ body rest, InBlock body ∧ text = body ++ '*' :: '/' :: rest) ∨ InBlock text := by
  induction text with
  | nil => exact .inr (by simp [InBlock])
  | cons c text ih =>
    by_cases closes : c = '*' ∧ text.head? = some '/'
    · obtain ⟨rfl, head⟩ := closes
      obtain ⟨rest, rfl⟩ := List.head?_eq_some_iff.mp head
      exact .inl ⟨[], rest, by simp [InBlock], rfl⟩
    · rcases ih with ⟨body, rest, inBlock, rfl⟩ | inBlock
      · refine .inl ⟨c :: body, rest, InBlock.cons_iff.mpr ⟨fun ⟨star, head⟩ => ?_, inBlock⟩, rfl⟩
        refine closes ⟨star, ?_⟩
        cases body <;> simp_all
      · exact .inr (InBlock.cons_iff.mpr ⟨closes, inBlock⟩)

/-- Each way in which skipping a text can end. -/
theorem skipTrivia_skips (p : Position) (text : List Char) :
    Skips p text (skipTrivia .between p text) := by
  -- one blank or one comment at a time; what is left is shorter
  induction length : text.length using Nat.strong_induction_on generalizing p text with
  | _ n ih =>
  subst n
  by_cases line : ∃ rest, text = '/' :: '/' :: rest
  · obtain ⟨text, rfl⟩ := line
    rcases line_split text with ⟨body, rest, inLine, rfl⟩ | ⟨body, rest, inLine, rfl, stops⟩
    · have comment := IsGap.line inLine .nil
      have split : '/' :: '/' :: (body ++ '\n' :: rest) =
          '/' :: '/' :: (body ++ ['\n']) ++ rest := by simp
      rw [split, comment.skip]
      exact .behind comment (ih rest.length (by simp; omega) _ rest rfl)
    · have ended : skipTrivia .line ((p.afterText ['/', '/']).afterText body) rest =
          (true, ⟨rest, (p.afterText ['/', '/']).afterText body⟩) := by
        rcases stops with rfl | head
        · rfl
        · obtain ⟨more, rfl⟩ := List.head?_eq_some_iff.mp head
          rfl
      rw [skipTrivia, skipTrivia_inLine _ inLine, ended, ← Position.afterText_append]
      exact .line .nil inLine stops
  by_cases block : ∃ rest, text = '/' :: '*' :: rest
  · obtain ⟨text, rfl⟩ := block
    rcases block_split text with ⟨body, rest, inBlock, rfl⟩ | inBlock
    · have comment := IsGap.block inBlock .nil
      have split : '/' :: '*' :: (body ++ '*' :: '/' :: rest) =
          '/' :: '*' :: (body ++ ['*', '/']) ++ rest := by simp
      rw [split, comment.skip]
      exact .behind comment (ih rest.length (by simp; omega) _ rest rfl)
    · rw [skipTrivia, skipTrivia_openBlock _ inBlock, ← Position.afterText_append]
      exact .block .nil inBlock
  cases text with
  | nil => exact Skips.gap IsGap.nil
  | cons c text =>
    by_cases layout : isLayout c = true
    · rw [skipTrivia_blank p layout]
      exact .behind (.blank layout .nil) (ih text.length (by simp) _ text rfl)
    · rw [skipTrivia, if_neg layout]
      · exact .gap .nil
      · rintro rest rfl rfl
        exact line ⟨rest, rfl⟩
      · rintro rest rfl rfl
        exact block ⟨rest, rfl⟩

end ConstFun
