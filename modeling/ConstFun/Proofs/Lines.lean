import ConstFun.FileTree
import ConstFun.Proofs.Scanning

namespace ConstFun

theorem splitOn_feed_cases (text : List Char) :
    text.splitOn '\n' = [text] ∨ ∃ first rest, '\n' ∉ first ∧ text = first ++ '\n' :: rest ∧
      text.splitOn '\n' = first :: rest.splitOn '\n' := by
  by_cases feed : '\n' ∈ text
  · obtain ⟨first, rest, rfl, noFeed⟩ := List.eq_append_cons_of_mem feed
    exact .inr ⟨first, rest, noFeed, rfl, List.splitOn_append_cons_self_of_not_mem noFeed rest⟩
  · have single : (['\n'].intercalate [text]).splitOn '\n' = [text] :=
      List.splitOn_intercalate '\n' (by simpa using feed) (by simp)
    rw [List.intercalate_singleton] at single
    exact .inl single

theorem length_splitOn_feed (text : List Char) : (text.splitOn '\n').length = lineAfter text := by
  induction text with
  | nil => rfl
  | cons c text ih =>
    rw [List.splitOn_cons_eq_if_modifyHead, lineAfter, List.count_cons]
    rw [lineAfter] at ih
    split <;> simp [ih]
    omega

section Shown

variable {line : List Char}

theorem ne_return_of_plain {c : Char} (plain : endsLine c = false) : c ≠ '\r' := by
  rintro rfl
  exact absurd plain (by decide)

theorem linesFrom_plain (plain : ∀ c ∈ line, endsLine c = false) (begun rest : List Char) :
    linesFrom begun (line ++ rest) = linesFrom (line.reverse ++ begun) rest := by
  induction line generalizing begun with
  | nil => rfl
  | cons c line ih =>
    obtain ⟨head, tail⟩ := List.forall_mem_cons.mp plain
    rw [List.cons_append, linesFrom, if_neg (by simp [head]), ih tail, List.reverse_cons,
      List.append_assoc]
    · rfl
    · exact fun _ same => absurd same (ne_return_of_plain head)

theorem linesFrom_feed (plain : ∀ c ∈ line, endsLine c = false) (rest : List Char) :
    linesFrom [] (line ++ '\n' :: rest) = String.ofList line :: linesFrom [] rest := by
  rw [linesFrom_plain plain, linesFrom, if_pos (by decide)]
  · simp
  · exact fun _ same => absurd same (by decide)

theorem linesFrom_last (plain : ∀ c ∈ line, endsLine c = false) :
    linesFrom [] line = if line = [] then [] else [String.ofList line] := by
  have whole := linesFrom_plain plain [] []
  rw [List.append_nil] at whole
  rw [whole, linesFrom]
  simp

end Shown

/-- As long as only line feeds end lines, a text is shown in its lines; a last one that is empty is
not shown. -/
theorem linesFrom_getElem? {text own : List Char} {index : Nat}
    (here : (text.splitOn '\n')[index]? = some own)
    (plain : ∀ l ∈ (text.splitOn '\n').take (index + 1), ∀ c ∈ l, endsLine c = false) :
    (linesFrom [] text)[index]? =
      if own = [] ∧ index + 1 = (text.splitOn '\n').length then none
      else some (String.ofList own) := by
  induction index generalizing text with
  | zero =>
    rcases splitOn_feed_cases text with single | ⟨first, rest, _, rfl, split⟩
    · rw [single] at here plain ⊢
      obtain rfl : text = own := Option.some.inj here
      rw [linesFrom_last (plain text (by simp))]
      by_cases empty : text = [] <;> simp [empty]
    · rw [split] at here plain ⊢
      obtain rfl : first = own := Option.some.inj here
      have more : 0 < (rest.splitOn '\n').length := by rw [length_splitOn_feed, lineAfter]; omega
      rw [linesFrom_feed (plain first (by simp)), if_neg]
      · rfl
      · simp only [List.length_cons]
        omega
  | succ index ih =>
    rcases splitOn_feed_cases text with single | ⟨first, rest, _, rfl, split⟩
    · simp [single] at here
    · rw [split] at here plain ⊢
      have below : (linesFrom [] rest)[index]? = _ := ih here fun l mem => plain l (by simp [mem])
      rw [linesFrom_feed (plain first (by simp)), List.getElem?_cons_succ, below]
      simp only [List.length_cons, Nat.add_right_cancel_iff]

/-- The characters that end a line where it is shown, but not for scanning. -/
def breaksLine (c : Char) : Bool := endsLine c && c != '\n'

/-- A line that is shown under a number: a piece of the text between line ends of any kind. It
stands on the line of that number if there are only line feeds before it, and else on an earlier
one. -/
structure ShownAt (text : List Char) (number : Nat) (before shown after : List Char) : Prop where
  whole : text = before ++ shown ++ after
  counted : number = lineAfter before + before.countP breaksLine
  opens : ∀ c ∈ before.getLast?, endsLine c = true
  plain : ∀ c ∈ shown, endsLine c = false
  closes : ∀ c ∈ after.head?, endsLine c = true

theorem countP_endsLine (text : List Char) :
    text.countP endsLine = text.count '\n' + text.countP breaksLine := by
  induction text with
  | nil => rfl
  | cons c text ih =>
    rw [List.countP_cons, List.count_cons, List.countP_cons, ih]
    by_cases feed : c = '\n'
    · subst feed
      have ends : endsLine '\n' = true := by decide
      have breaks : breaksLine '\n' = false := by decide
      simp [ends, breaks]
      omega
    · simp [breaksLine, feed]
      omega

theorem exists_shown {begun text : List Char} (noReturn : '\r' ∉ text)
    (plain : ∀ c ∈ begun, endsLine c = false) {index : Nat} {line : String}
    (found : (linesFrom begun text)[index]? = some line) :
    ∃ before after, begun.reverse ++ text = before ++ line.toList ++ after ∧
      before.countP endsLine = index ∧ (∀ c ∈ before.getLast?, endsLine c = true) ∧
      (∀ c ∈ line.toList, endsLine c = false) ∧ ∀ c ∈ after.head?, endsLine c = true := by
  fun_induction linesFrom begun text generalizing index with
  | case1 begun empty => simp at found
  | case2 begun some_char =>
    obtain ⟨rfl, rfl⟩ : index = 0 ∧ String.ofList begun.reverse = line := by
      simpa [List.getElem?_singleton] using found
    exact ⟨[], [], by simp, rfl, by simp, by simpa using plain, by simp⟩
  | case3 begun rest ih => simp at noReturn
  | case4 begun c rest apart ends ih =>
    cases index with
    | zero =>
      obtain rfl : String.ofList begun.reverse = line := Option.some.inj found
      exact ⟨[], c :: rest, by simp, rfl, by simp, by simpa using plain, by simpa using ends⟩
    | succ index =>
      have below : ∃ before after, [].reverse ++ rest = before ++ line.toList ++ after ∧
          before.countP endsLine = index ∧ (∀ c ∈ before.getLast?, endsLine c = true) ∧
          (∀ c ∈ line.toList, endsLine c = false) ∧ ∀ c ∈ after.head?, endsLine c = true :=
        ih (by simp_all) (by simp) found
      obtain ⟨before, after, whole, counted, opens, inside, closes⟩ := below
      have none : begun.countP endsLine = 0 := List.countP_eq_zero.mpr (by simpa using plain)
      refine ⟨begun.reverse ++ c :: before, after, ?_, ?_, ?_, inside, closes⟩
      · have whole : rest = before ++ line.toList ++ after := whole
        simp [whole]
      · simp [none, ends, counted]
      · cases before with
        | nil => simpa using ends
        | cons d before => simpa using opens
  | case5 begun c rest apart stays ih =>
    have below := ih (by simp_all) (List.forall_mem_cons.mpr ⟨by simpa using stays, plain⟩) found
    simpa using below

/-- Every line that is shown of a text with no carriage return. -/
theorem exists_shownAt {text : String} (noReturn : '\r' ∉ text.toList) {index : Nat} {line : String}
    (found : (displayLines text)[index]? = some line) :
    ∃ before after, ShownAt text.toList (index + 1) before line.toList after := by
  obtain ⟨before, after, whole, counted, opens, plain, closes⟩ :=
    exists_shown noReturn (by simp) found
  refine ⟨before, after, whole, ?_, opens, plain, closes⟩
  rw [← counted, countP_endsLine, lineAfter]
  omega

theorem not_mem_unifyNewlines (text : List Char) : '\r' ∉ unifyNewlines text := by
  fun_induction unifyNewlines text with
  | case1 => simp
  | case2 rest ih => simpa using ih
  | case3 c rest apart ih =>
    split
    next => simpa using ih
    next other => simp [ih, Ne.symm other]

theorem FileTree.no_return_of_readText {t : FileTree} {path : PathName} {text : String}
    (read : t.readText path = .ok text) : '\r' ∉ text.toList := by
  unfold readText decodeText at read
  split at read
  next => cases read
  next bytes _ =>
    split at read
    next found _ =>
      cases read
      rw [String.toList_ofList]
      exact not_mem_unifyNewlines _
    next => cases read

end ConstFun
