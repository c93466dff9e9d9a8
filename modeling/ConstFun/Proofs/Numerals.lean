import ConstFun.Number.LiteralValue
import Mathlib.Data.List.Induction
import Mathlib.Data.List.TakeWhile
import Mathlib.Data.Nat.Digits.Defs

namespace ConstFun

theorem exists_digitChar_of_mem_toDigits {base n : Nat} {c : Char} (two : 1 < base)
    (mem : c ∈ Nat.toDigits base n) : ∃ d, c = Nat.digitChar d := by
  induction n using Nat.strongRecOn with
  | ind n ih =>
    rw [Nat.toDigits_eq_if two] at mem
    split at mem
    next => exact ⟨n, List.mem_singleton.mp mem⟩
    next large =>
      rcases List.mem_append.mp mem with mem | mem
      · exact ih (n / base) (Nat.div_lt_self (by omega) two) mem
      · exact ⟨n % base, List.mem_singleton.mp mem⟩

theorem not_mem_hexDigits {c : Char} (digit : ∀ d, Nat.digitChar d ≠ c) (width n : Nat) :
    c ∉ (hexDigits width n).toList := by
  intro mem
  simp only [hexDigits, padLeft, String.toList_append, String.toList_ofList, List.mem_append] at mem
  rcases mem with filled | mem
  · exact digit 0 (List.eq_of_mem_replicate filled).symm
  · obtain ⟨d, same⟩ := exists_digitChar_of_mem_toDigits (by decide) mem
    exact digit d same.symm

/-- The number that an ASCII digit stands for. -/
def digitOf (c : Char) : Nat := c.toNat - '0'.toNat

/-- What holds of the ten digits holds of every ASCII digit. -/
theorem forall_isDigit {p : Char → Prop} (each : ∀ k < 10, p (Char.ofNat (48 + k))) {c : Char}
    (digit : c.isDigit = true) : p c := by
  simp only [Char.isDigit, Bool.and_eq_true, decide_eq_true_eq, ge_iff_le,
    UInt32.le_iff_toNat_le] at digit
  have low : 48 ≤ c.toNat := digit.1
  have high : c.toNat ≤ 57 := digit.2
  have here := each (c.toNat - 48) (by omega)
  rwa [Nat.add_sub_cancel' low, Char.ofNat_toNat] at here

theorem digitValue?_of_isDigit {c : Char} (digit : c.isDigit = true) :
    digitValue? c = some (digitOf c) :=
  forall_isDigit (p := fun c => digitValue? c = some (digitOf c)) (by decide) digit

theorem digitOf_lt {c : Char} (digit : c.isDigit = true) : digitOf c < 10 :=
  forall_isDigit (p := fun c => digitOf c < 10) (by decide) digit

theorem filterMap_digitValue? {digits : List Char} (all : ∀ c ∈ digits, c.isDigit = true) :
    digits.filterMap digitValue? = digits.map digitOf := by
  induction digits with
  | nil => rfl
  | cons c digits ih =>
    rw [List.filterMap_cons, digitValue?_of_isDigit (all c (by simp)), List.map_cons]
    rw [ih fun d mem => all d (by simp [mem])]

theorem numberOfDigits_eq (base : Nat) (digits : List Nat) :
    numberOfDigits base digits = Nat.ofDigits base digits.reverse := by
  induction digits using List.reverseRecOn with
  | nil => rfl
  | append_singleton digits d ih =>
    unfold numberOfDigits at ih ⊢
    rw [List.foldl_append, ih, List.reverse_append, List.reverse_singleton,
      List.singleton_append, Nat.ofDigits_cons, Nat.add_comm, Nat.mul_comm base]
    rfl

/-- A sign, digits, and a point with digits after it; there is some digit. -/
structure Numeral where
  sign : List Char
  integral : List Char
  fraction : Option (List Char)
  signed : sign ∈ [[], ['+'], ['-']]
  integral_digits : ∀ c ∈ integral, c.isDigit = true
  fraction_digits : ∀ c ∈ fraction.getD [], c.isDigit = true
  nonempty : integral ++ fraction.getD [] ≠ []

namespace Numeral

variable (n : Numeral)

/-- The numeral without its sign. -/
def body : List Char := n.integral ++ n.fraction.elim [] ('.' :: ·)

def chars : List Char := n.sign ++ n.body

def text : String := String.ofList n.chars

def digits : List Char := n.integral ++ n.fraction.getD []

def negative : Bool := n.sign == ['-']

theorem isDigit_of_mem_digits {c : Char} (mem : c ∈ n.digits) : c.isDigit = true := by
  rcases List.mem_append.mp mem with mem | mem
  · exact n.integral_digits c mem
  · exact n.fraction_digits c mem

theorem sign_cases : n.sign = [] ∨ n.sign = ['+'] ∨ n.sign = ['-'] := by
  simpa using n.signed

/-- A property of the signs, the point and the digits holds of all that is written. -/
theorem forall_mem_chars {p : Char → Prop} (sign : p '+' ∧ p '-') (point : p '.')
    (digit : ∀ k < 10, p (Char.ofNat (48 + k))) : ∀ c ∈ n.chars, p c := by
  intro c mem
  rcases List.mem_append.mp mem with mem | mem
  · rcases n.sign_cases with none | plus | minus
    · simp [none] at mem
    · obtain rfl : c = '+' := by simpa [plus] using mem
      exact sign.1
    · obtain rfl : c = '-' := by simpa [minus] using mem
      exact sign.2
  · rcases List.mem_append.mp mem with mem | mem
    · exact forall_isDigit digit (n.integral_digits c mem)
    · have digits := n.fraction_digits
      cases fraction : n.fraction with
      | none => simp [fraction] at mem
      | some ds =>
        simp only [fraction, Option.getD_some] at digits
        rcases List.mem_cons.mp (by simpa [fraction] using mem) with rfl | mem
        · exact point
        · exact forall_isDigit digit (digits c mem)

theorem body_starts : ∃ c rest, n.body = c :: rest ∧ (c = '.' ∨ c.isDigit = true) := by
  unfold body
  cases integral : n.integral with
  | cons c rest => exact ⟨c, _, rfl, .inr (n.integral_digits c (by simp [integral]))⟩
  | nil =>
    cases fraction : n.fraction with
    | some ds => exact ⟨'.', ds, rfl, .inl rfl⟩
    | none =>
      have some_digit := n.nonempty
      simp [integral, fraction] at some_digit

theorem splitSign_chars : splitSign n.chars = (n.negative, n.body) := by
  obtain ⟨c, rest, starts, kind⟩ := n.body_starts
  have apart : c ≠ '-' ∧ c ≠ '+' := by
    constructor <;> (rintro rfl; revert kind; decide)
  unfold chars negative
  rcases n.sign_cases with sign | sign | sign
  · rw [sign, starts, List.nil_append]
    unfold splitSign
    split
    next eq => exact absurd (List.cons.inj eq).1 apart.1
    next eq => exact absurd (List.cons.inj eq).1 apart.2
    next => rfl
  · rw [sign]
    rfl
  · rw [sign]
    rfl

/-- The point is the first one. -/
theorem ne_point {c : Char} (mem : c ∈ n.sign ++ n.integral) : c ≠ '.' := by
  rintro rfl
  rcases List.mem_append.mp mem with mem | mem
  · rcases n.sign_cases with sign | sign | sign <;> simp [sign] at mem
  · exact absurd (n.integral_digits '.' mem) (by decide)

theorem contains_point : n.chars.contains '.' = n.fraction.isSome := by
  have before : '.' ∉ n.sign ++ n.integral := fun mem => n.ne_point mem rfl
  unfold chars body
  rw [← List.append_assoc]
  cases fraction : n.fraction <;> simp_all

theorem filter_isDigit : n.chars.filter Char.isDigit = n.digits := by
  have sign : n.sign.filter Char.isDigit = [] := by
    rcases n.sign_cases with sign | sign | sign <;> rw [sign] <;> rfl
  have integral := List.filter_eq_self.mpr n.integral_digits
  have fraction := List.filter_eq_self.mpr n.fraction_digits
  have point : Char.isDigit '.' = false := rfl
  unfold chars body digits
  cases behind : n.fraction with
  | none => simp [sign, integral]
  | some ds =>
    rw [behind, Option.getD_some] at fraction
    simp [sign, integral, fraction, point]

theorem no_blank : ∀ c ∈ n.chars, isBlankAroundNumber c = false :=
  n.forall_mem_chars (by decide) (by decide) (by decide)

theorem no_underscore : ∀ c ∈ n.chars, c ≠ '_' :=
  n.forall_mem_chars (by decide) (by decide) (by decide)

end Numeral

/-- A text without underscores has none in a wrong place. -/
theorem underscoresSeparateDigits_of_none {text : List Char} (none : ∀ c ∈ text, c ≠ '_')
    (previous : Option Char) (before : previous ≠ some '_') :
    underscoresSeparateDigits previous text = true := by
  induction text generalizing previous with
  | nil => simpa [underscoresSeparateDigits] using before
  | cons c text ih =>
    have here := none c (by simp)
    have rest := ih (fun d mem => none d (by simp [mem])) (some c) (by simpa using here)
    simp [underscoresSeparateDigits, here, before, rest]

theorem takeWhile_of_all {α : Type} {p : α → Bool} {l : List α} (all : ∀ a ∈ l, p a = true) :
    l.takeWhile p = l :=
  List.takeWhile_eq_self_iff.mpr all

theorem isDigitOfAnyScript_of_isDigit {c : Char} (digit : c.isDigit = true) :
    isDigitOfAnyScript c = true := by
  simp [isDigitOfAnyScript, digitValue?_of_isDigit digit]

namespace Numeral

variable {n : Numeral}

theorem chars_dropWhile : n.chars.dropWhile isBlankAroundNumber = n.chars := by
  cases chars : n.chars with
  | nil => rfl
  | cons c rest =>
    have here := n.no_blank c (by simp [chars])
    rw [List.dropWhile_cons_of_neg (by simp [here])]

/-- The integer that the digits of a numeral without a point denote. -/
def integer (n : Numeral) : Int :=
  let magnitude : Nat := Nat.ofDigits 10 (n.digits.reverse.map digitOf)
  if n.negative then -magnitude else magnitude

/-- A numeral without a point is read as the integer it denotes, if it has not too many digits. -/
theorem readInteger_text (whole : n.fraction = none) :
    readInteger n.text =
      if digitLimit < n.digits.length then .error (.tooManyDigits n.digits.length)
      else .ok n.integer := by
  have digits : n.digits = n.integral := by simp [Numeral.digits, whole]
  have body : n.body = n.integral := by simp [Numeral.body, whole]
  have inRun : ∀ c ∈ n.integral, (isDigitOfAnyScript c || c == '_') = true := fun c mem => by
    simp [isDigitOfAnyScript_of_isDigit (n.integral_digits c mem)]
  have plain : ∀ c ∈ n.integral, c ≠ '_' := fun c mem =>
    n.no_underscore c (by simp [chars, body, mem])
  have values := filterMap_digitValue? n.integral_digits
  have some_digit : n.integral ≠ [] := by simpa [whole] using n.nonempty
  have ends : n.integral.dropWhile (fun c => isDigitOfAnyScript c || c == '_') = [] :=
    List.dropWhile_eq_nil_iff.mpr inRun
  unfold readInteger
  simp only [text, String.toList_ofList, chars_dropWhile, n.splitSign_chars, body,
    takeWhile_of_all inRun, values, ends, digits,
    underscoresSeparateDigits_of_none plain none (by simp)]
  simp [some_digit, integer, numberOfDigits_eq, digits]

theorem trimBoth_chars : trimBoth isBlankAroundNumber n.chars = n.chars := by
  have backwards : n.chars.reverse.dropWhile isBlankAroundNumber = n.chars.reverse := by
    cases reversed : n.chars.reverse with
    | nil => rfl
    | cons c rest =>
      have here := n.no_blank c (List.mem_reverse.mp (by simp [reversed]))
      rw [List.dropWhile_cons_of_neg (by simp [here])]
  rw [trimBoth, chars_dropWhile, backwards, List.reverse_reverse]

theorem withoutUnderscores_chars : withoutUnderscores n.chars = n.chars :=
  List.filter_eq_self.mpr fun c mem => by simpa using n.no_underscore c mem

/-- What stands before and behind the point of a numeral is read as it stands. -/
theorem readPlainDecimal?_body {ds : List Char} (pointed : n.fraction = some ds) (negative : Bool) :
    readPlainDecimal? negative n.body =
      some (.ofDecimal negative (n.digits.map digitOf) (-(ds.length : Int))) := by
  have integral : ∀ c ∈ n.integral, isDigitOfAnyScript c = true := fun c mem =>
    isDigitOfAnyScript_of_isDigit (n.integral_digits c mem)
  have fraction : ∀ c ∈ ds, isDigitOfAnyScript c = true := fun c mem =>
    isDigitOfAnyScript_of_isDigit (n.fraction_digits c (by simpa [pointed] using mem))
  have point : isDigitOfAnyScript '.' = false := by decide
  have body : n.body = n.integral ++ '.' :: ds := by simp [Numeral.body, pointed]
  have digits : n.digits = n.integral ++ ds := by simp [Numeral.digits, pointed]
  have first : n.body.takeWhile isDigitOfAnyScript = n.integral := by
    rw [body, List.takeWhile_append_of_pos integral]
    simp [point]
  have second : n.body.dropWhile isDigitOfAnyScript = '.' :: ds := by
    rw [body, List.dropWhile_append_of_pos integral]
    simp [point]
  have last : ds.dropWhile isDigitOfAnyScript = [] := List.dropWhile_eq_nil_iff.mpr fraction
  have values := filterMap_digitValue? (digits ▸ fun c => n.isDigit_of_mem_digits (c := c))
  have some_digit : (List.map digitOf (n.integral ++ ds)).isEmpty = false := by
    simpa [pointed] using n.nonempty
  unfold readPlainDecimal?
  simp only [first, second, takeWhile_of_all fraction, last, values, digits, List.head?_cons,
    if_true, some_digit]
  simp

/-- A numeral with a point is read as the double of its digits and places. -/
theorem readDecimal_text {ds : List Char} (pointed : n.fraction = some ds) :
    readDecimal n.text =
      .ok (.ofDecimal n.negative (n.digits.map digitOf) (-(ds.length : Int))) := by
  have point : '.' ∈ n.body := by simp [body, pointed]
  -- the point tells the numeral from the words for what is not finite
  have lower (word : String) (plain : '.' ∉ word.toList) :
      String.ofList (n.body.map Char.toLower) ≠ word := by
    rintro rfl
    refine plain ?_
    rw [String.toList_ofList]
    exact List.mem_map.mpr ⟨'.', point, by decide⟩
  unfold readDecimal readUnsignedDecimal?
  simp only [text, String.toList_ofList, trimBoth_chars, withoutUnderscores_chars,
    n.splitSign_chars, lower "inf" (by decide), lower "infinity" (by decide),
    lower "nan" (by decide), or_self, if_false, readPlainDecimal?_body pointed,
    underscoresSeparateDigits_of_none n.no_underscore none (by simp), if_true]

end Numeral

end ConstFun
