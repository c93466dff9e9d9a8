namespace ConstFun

/-- Which characters are letters, and which others are numerals. Editions of Unicode differ in
that, but not in ASCII. -/
class Alphabet where
  isLetter : Char → Bool
  isNumeral : Char → Bool
  isLetter_ascii : ∀ c : Char, c.toNat < 128 → isLetter c = c.isAlpha
  isNumeral_ascii : ∀ c : Char, c.toNat < 128 → isNumeral c = c.isDigit

/-- An ASCII character, and whether it starts a word in every alphabet. -/
abbrev AsciiStarts (c : Char) (answer : Bool) : Prop :=
  c.toNat < 128 ∧ (c.isAlpha || c == '_') = answer

/-- An ASCII character, and whether words go on with it in every alphabet. -/
abbrev AsciiContinues (c : Char) (answer : Bool) : Prop :=
  c.toNat < 128 ∧ (c.isAlpha || c.isDigit || c == '_') = answer

variable [Alphabet]

def startsWord (c : Char) : Bool := Alphabet.isLetter c || c == '_'

def continuesWord (c : Char) : Bool := Alphabet.isLetter c || Alphabet.isNumeral c || c == '_'

theorem startsWord_ascii {c : Char} {answer : Bool} (known : AsciiStarts c answer) :
    startsWord c = answer := by
  rw [startsWord, Alphabet.isLetter_ascii c known.1, known.2]

theorem continuesWord_ascii {c : Char} {answer : Bool} (known : AsciiContinues c answer) :
    continuesWord c = answer := by
  rw [continuesWord, Alphabet.isLetter_ascii c known.1, Alphabet.isNumeral_ascii c known.1, known.2]

end ConstFun
