import ConstFun.Number.Binary64
import ConstFun.Text.Blank
import ConstFun.Text.Digit

namespace ConstFun

inductive NumberError where
  | malformedInteger (text : String)
  | tooManyDigits (count : Nat)
  | malformedDecimal (text : String)
  | integerTooLarge
  | infinityToInteger
  | nanToInteger
  deriving DecidableEq, Repr

/-- The number of digits beyond which an integer is not read. -/
def digitLimit : Nat := 4300

/-- A message shows at most this many characters of a malformed integer's quoted form. -/
def shownIntegerWidth : Nat := 200

def NumberError.message : NumberError → String
  | .malformedInteger text =>
    "invalid literal for int() with base 10: "
      ++ String.ofList ((quoted text).toList.take shownIntegerWidth)
  | .tooManyDigits count =>
    s!"Exceeds the limit ({digitLimit} digits) for integer string conversion: value has {count} "
      ++ "digits; use sys.set_int_max_str_digits() to increase the limit"
  | .malformedDecimal text => "could not convert string to float: " ++ quoted text
  | .integerTooLarge => "int too large to convert to float"
  | .infinityToInteger => "cannot convert float infinity to integer"
  | .nanToInteger => "cannot convert float NaN to integer"

/-- The white space allowed around a number; the ASCII separators are not. -/
def isBlankAroundNumber (c : Char) : Bool :=
  isBlank c && !(decide (0x1c ≤ c.toNat) && decide (c.toNat ≤ 0x1f))

/-- Underscores stand only between two digits. -/
def underscoresSeparateDigits : (previous : Option Char) → List Char → Bool
  | previous, [] => previous ≠ some '_'
  | previous, c :: rest =>
    let digit (d : Option Char) : Bool := d.any isDigitOfAnyScript
    (if c = '_' then digit previous else previous ≠ some '_' || digit (some c))
      && underscoresSeparateDigits (some c) rest

def withoutUnderscores (text : List Char) : List Char := text.filter (· ≠ '_')

/-- An integer: blanks, a sign, digits of any script with single underscores between them, blanks.
Too many digits are reported before anything that follows them. -/
def readInteger (text : String) : Except NumberError Int :=
  let (negative, body) := splitSign (text.toList.dropWhile isBlankAroundNumber)
  let inRun (c : Char) : Bool := isDigitOfAnyScript c || c == '_'
  let run := body.takeWhile inRun
  let digits := run.filterMap digitValue?
  if digits.isEmpty || !underscoresSeparateDigits none run then .error (.malformedInteger text)
  else if digitLimit < digits.length then .error (.tooManyDigits digits.length)
  else if (body.dropWhile inRun).all isBlankAroundNumber then
    let value : Int := numberOfDigits 10 digits
    .ok (if negative then -value else value)
  else .error (.malformedInteger text)

/-- A decimal exponent after its `e`: a sign and at least one digit, and nothing else. -/
def readExponent? (text : List Char) : Option Int := do
  let (negative, body) := splitSign text
  let digits ← body.mapM digitValue?
  if digits.isEmpty then none
  let value : Int := numberOfDigits 10 digits
  return if negative then -value else value

/-- Digits with an optional point and an optional exponent. -/
def readPlainDecimal? (negative : Bool) (text : List Char) : Option Binary64 := do
  let integral := text.takeWhile isDigitOfAnyScript
  let afterIntegral := text.dropWhile isDigitOfAnyScript
  let pointed := match afterIntegral with
    | '.' :: rest => rest
    | _ => []
  let fraction := pointed.takeWhile isDigitOfAnyScript
  let rest := if afterIntegral.head? = some '.' then pointed.dropWhile isDigitOfAnyScript
    else afterIntegral
  let digits := (integral ++ fraction).filterMap digitValue?
  if digits.isEmpty then none
  let exponent ← match rest with
    | [] => some 0
    | c :: power => if c = 'e' ∨ c = 'E' then readExponent? power else none
  return .ofDecimal negative digits (exponent - fraction.length)

/-- A decimal without blanks, underscores and sign. -/
def readUnsignedDecimal? (negative : Bool) (text : List Char) : Option Binary64 :=
  let word := String.ofList (text.map Char.toLower)
  if word = "inf" ∨ word = "infinity" then some (.infinite negative)
  else if word = "nan" then some .nan
  else readPlainDecimal? negative text

/-- The double nearest to a decimal text. -/
def readDecimal (text : String) : Except NumberError Binary64 :=
  let trimmed := trimBoth isBlankAroundNumber text.toList
  let (negative, body) := splitSign (withoutUnderscores trimmed)
  match readUnsignedDecimal? negative body with
  | some value => if underscoresSeparateDigits none trimmed then .ok value
    else .error (.malformedDecimal text)
  | none => .error (.malformedDecimal text)

end ConstFun
