import ConstFun.PathName
import Mathlib.Data.List.Basic

namespace ConstFun

theorem not_mem_of_mem_splitOn {separator : Char} {text part : List Char}
    (mem : part ∈ text.splitOn separator) : separator ∉ part := by
  induction text generalizing part with
  | nil =>
    rw [List.splitOn_nil, List.mem_singleton] at mem
    simp [mem]
  | cons c text ih =>
    rw [List.splitOn_cons_eq_if_modifyHead] at mem
    split at mem
    next =>
      rcases List.mem_cons.mp mem with rfl | mem
      · simp
      · exact ih mem
    next other =>
      cases split : text.splitOn separator with
      | nil => exact absurd split (List.splitOn_ne_nil _ _)
      | cons first rest =>
        rw [split, List.modifyHead_cons] at mem
        have apart : separator ≠ c := fun same => other (by simp [same])
        rcases List.mem_cons.mp mem with rfl | mem
        · exact List.not_mem_cons_of_ne_of_not_mem apart (ih (by simp [split]))
        · exact ih (by simp [split, mem])

theorem splitOn_replicate_append (separator : Char) (n : Nat) (text : List Char) :
    (List.replicate n separator ++ text).splitOn separator =
      List.replicate n [] ++ text.splitOn separator := by
  induction n with
  | zero => rfl
  | succ n ih =>
    rw [List.replicate_succ, List.cons_append, List.splitOn_cons_eq_if_modifyHead, ih]
    simp [List.replicate_succ]

namespace PathName

/-- What the reading of a path leaves: two slashes in front at most, and parts that hold no slash
and say something. -/
structure Plain (p : PathName) : Prop where
  slashes : p.slashes ≤ 2
  parts : ∀ part ∈ p.parts, '/' ∉ part.toList ∧ part ≠ "" ∧ part ≠ "."

theorem plain_ofText (path : String) : (ofText path).Plain where
  slashes := by
    change leadingSlashes path ≤ 2
    unfold leadingSlashes
    dsimp only
    split <;> omega
  parts part mem := by
    obtain ⟨mem, kept⟩ := List.mem_filter.mp mem
    obtain ⟨chars, split, rfl⟩ := List.mem_map.mp mem
    rw [String.toList_ofList]
    exact ⟨not_mem_of_mem_splitOn split, of_decide_eq_true kept⟩

variable {p : PathName}

theorem toList_join (slashes : Nat) (parts : List String) :
    (join slashes parts).toList =
      List.replicate slashes '/' ++ ['/'].intercalate (parts.map String.toList) := by
  simp [join, String.toList_intercalate]

/-- Behind the slashes in front there is no slash. -/
theorem Plain.head_ne (plain : p.Plain) :
    (['/'].intercalate (p.parts.map String.toList)).head? ≠ some '/' := by
  cases parts : p.parts with
  | nil => simp
  | cons part rest =>
    obtain ⟨noSlash, some_text, _⟩ := plain.parts part (by simp [parts])
    cases chars : part.toList with
    | nil => exact absurd (String.toList_eq_nil_iff.mp chars) some_text
    | cons c cs =>
      rw [chars] at noSlash
      have other : c ≠ '/' := fun same => noSlash (by simp [same])
      cases rest with
      | nil => simpa [chars] using other
      | cons next rest => simpa [chars, List.intercalate_cons_cons] using other

theorem Plain.leadingSlashes_join (plain : p.Plain) :
    leadingSlashes (join p.slashes p.parts) = p.slashes := by
  have front : (join p.slashes p.parts).toList.takeWhile (· = '/') =
      List.replicate p.slashes '/' := by
    rw [toList_join, List.takeWhile_append_of_pos (by simp)]
    cases behind : ['/'].intercalate (p.parts.map String.toList) with
    | nil => simp
    | cons c cs =>
      have other := plain.head_ne
      rw [behind] at other
      have other : c ≠ '/' := by simpa using other
      simp [other]
  have few := plain.slashes
  unfold leadingSlashes
  rw [front]
  simp [few]

/-- The parts that say something, of a text that is split at its slashes. -/
theorem Plain.parts_join (plain : p.Plain) :
    ((((join p.slashes p.parts).toList.splitOn '/').map String.ofList).filter
      fun part => part ≠ "" ∧ part ≠ ".") = p.parts := by
  have noSlash : ∀ chars ∈ p.parts.map String.toList, '/' ∉ chars := by
    intro chars mem
    obtain ⟨part, here, rfl⟩ := List.mem_map.mp mem
    exact (plain.parts part here).1
  rw [toList_join, splitOn_replicate_append, List.map_append, List.filter_append]
  have front : (((List.replicate p.slashes []).map String.ofList).filter
      fun part => part ≠ "" ∧ part ≠ ".") = [] := by simp
  rw [front, List.nil_append]
  cases parts : p.parts with
  | nil => simp
  | cons part rest =>
    rw [parts] at noSlash
    rw [List.splitOn_intercalate _ noSlash (by simp), List.map_map]
    have back : String.ofList ∘ String.toList = id := funext fun part => String.ofList_toList
    rw [back, List.map_id]
    refine List.filter_eq_self.mpr fun part mem => ?_
    exact decide_eq_true (plain.parts part (parts ▸ mem)).2

theorem text_ne_empty (p : PathName) : p.text ≠ "" := by
  unfold text
  dsimp only
  split
  next => decide
  next filled => exact filled

theorem Plain.ofText_text (plain : p.Plain) : ofText p.text = p := by
  unfold text
  dsimp only
  split
  next empty =>
    -- only the path without slashes and parts is written as the dot
    have none_left := plain.leadingSlashes_join
    have none_left' := plain.parts_join
    rw [empty] at none_left none_left'
    obtain ⟨slashes, parts⟩ := p
    dsimp only at none_left none_left'
    rw [← none_left, ← none_left']
    decide
  next =>
    unfold ofText
    dsimp only
    rw [plain.leadingSlashes_join, plain.parts_join]

end PathName

end ConstFun
