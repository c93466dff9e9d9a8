import ConstFun.Text.Quoted

namespace ConstFun

/-- A finite number is `± mantissa * 2 ^ exponent`. The numbers made here have a mantissa below
`2 ^ 53`, an exponent from -1074 to 971, and an exponent above -1074 only with a mantissa of at
least `2 ^ 52`. -/
inductive Binary64 where
  | finite (negative : Bool) (mantissa : Nat) (exponent : Int)
  | infinite (negative : Bool)
  | nan
  deriving DecidableEq, Repr

/-- The number written by digits in a base, first digit first. -/
def numberOfDigits (base : Nat) (digits : List Nat) : Nat :=
  digits.foldl (fun total digit => total * base + digit) 0

/-- The integer nearest to `num / den`, the even one of two. -/
def roundDiv (num den : Nat) : Nat :=
  let quotient := num / den
  let twice := 2 * (num % den)
  if twice < den then quotient
  else if den < twice then quotient + 1
  else if quotient % 2 = 0 then quotient
  else quotient + 1

/-- `num / den` divided by `2 ^ exponent`, as a numerator and a denominator. -/
def scaleDown (num den : Nat) (exponent : Int) : Nat × Nat :=
  if 0 ≤ exponent then (num, den * Nat.pow 2 exponent.toNat)
  else (num * Nat.pow 2 (-exponent).toNat, den)

/-- The exponent at which `num / den` has a 53-bit integral part, or the least one. -/
def binadeExponent (num den : Nat) : Int :=
  let guess : Int := (num.log2 : Int) - (den.log2 : Int) - 53
  let (n, d) := scaleDown num den guess
  let exponent := if d * Nat.pow 2 53 ≤ n then guess + 1 else guess
  max exponent (-1074)

namespace Binary64

/-- The number nearest to `± num / den`, the one of even mantissa of two; infinite from the
middle above the largest finite number on. -/
def ofRatio (negative : Bool) (num den : Nat) : Binary64 :=
  if num = 0 then .finite negative 0 (-1074)
  else
    let exponent := binadeExponent num den
    let (n, d) := scaleDown num den exponent
    let mantissa := roundDiv n d
    let (mantissa, exponent) :=
      if mantissa = Nat.pow 2 53 then (Nat.pow 2 52, exponent + 1) else (mantissa, exponent)
    if 971 < exponent then .infinite negative else .finite negative mantissa exponent

/-- The number written by decimal digits, first digit first, times `10 ^ scale`, rounded. With
more than 400 places before the point, or zeros after it, only the size of the number counts. -/
def ofDecimal (negative : Bool) (digits : List Nat) (scale : Int) : Binary64 :=
  let significant := digits.dropWhile (· = 0)
  let value := numberOfDigits 10 significant
  let places : Int := significant.length + scale
  if significant.isEmpty || places < -400 then ofRatio negative 0 1
  else if 400 < places then .infinite negative
  else if 0 ≤ scale then ofRatio negative (value * Nat.pow 10 scale.toNat) 1
  else ofRatio negative value (Nat.pow 10 (-scale).toNat)

def ofInt (value : Int) : Binary64 := ofRatio (decide (value < 0)) value.natAbs 1

def isIntegral : Binary64 → Bool
  | .finite _ mantissa exponent =>
    decide (0 ≤ exponent) || mantissa % Nat.pow 2 (-exponent).toNat == 0
  | _ => false

/-- The integral part of the magnitude of a finite number. -/
def integralPart (mantissa : Nat) (exponent : Int) : Nat :=
  if 0 ≤ exponent then mantissa * Nat.pow 2 exponent.toNat
  else mantissa / Nat.pow 2 (-exponent).toNat

/-- A finite number without its fraction. -/
def truncate? : Binary64 → Option Int
  | .finite negative mantissa exponent =>
    let part : Int := integralPart mantissa exponent
    some (if negative then -part else part)
  | _ => none

/-- Whether the number lies between `-limit` and `limit`. -/
def within (limit : Nat) : Binary64 → Bool
  | .finite _ mantissa exponent =>
    let (n, d) := scaleDown mantissa 1 (-exponent)
    decide (n ≤ limit * d)
  | _ => false

def signText (negative : Bool) : String := if negative then "-" else ""

/-- The form `0x1.hhhhhhhhhhhhhp±e`, with `0x0.` below the least normal number. -/
def hex : Binary64 → String
  | .nan => "nan"
  | .infinite negative => signText negative ++ "inf"
  | .finite negative mantissa exponent =>
    let body :=
      if mantissa = 0 then "0x0.0p+0"
      else if mantissa < Nat.pow 2 52 then "0x0." ++ hexDigits 13 mantissa ++ "p-1022"
      else
        let power := exponent + 52
        "0x1." ++ hexDigits 13 (mantissa - Nat.pow 2 52) ++ "p"
          ++ (if power < 0 then "-" else "+") ++ toString power.natAbs
    signText negative ++ body

end Binary64

def hexDigitValue? (c : Char) : Option Nat :=
  if c.isDigit then some (c.toNat - '0'.toNat)
  else if 'a' ≤ c ∧ c ≤ 'f' then some (c.toNat - 'a'.toNat + 10)
  else if 'A' ≤ c ∧ c ≤ 'F' then some (c.toNat - 'A'.toNat + 10)
  else none

/-- Splits a leading sign off; true stands for a minus. -/
def splitSign : List Char → Bool × List Char
  | '-' :: rest => (true, rest)
  | '+' :: rest => (false, rest)
  | text => (false, text)

/-- Reads the digits and exponent of a hexadecimal form after its `0x`. -/
def readHexBody (negative : Bool) (text : List Char) : Option Binary64 := do
  let whole := text.takeWhile (· ≠ 'p')
  let integral := whole.takeWhile (· ≠ '.')
  let fraction := (whole.dropWhile (· ≠ '.')).drop 1
  let digits ← (integral ++ fraction).mapM hexDigitValue?
  let (down, power) := splitSign ((text.dropWhile (· ≠ 'p')).drop 1)
  let places ← power.mapM fun c => if c.isDigit then some (c.toNat - '0'.toNat) else none
  let shift : Int := numberOfDigits 10 places
  let exponent := (if down then -shift else shift) - 4 * fraction.length
  let (n, d) := scaleDown (numberOfDigits 16 digits) 1 (-exponent)
  return .ofRatio negative n d

/-- Reads the hexadecimal form back. -/
def Binary64.ofHex? (text : String) : Option Binary64 :=
  match splitSign text.toList with
  | (_, ['n', 'a', 'n']) => some .nan
  | (negative, ['i', 'n', 'f']) => some (.infinite negative)
  | (negative, '0' :: 'x' :: body) => readHexBody negative body
  | _ => none

end ConstFun
