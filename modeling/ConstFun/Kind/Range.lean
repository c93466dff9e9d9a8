import ConstFun.Kind.Basic
import ConstFun.Number.LiteralValue

namespace ConstFun

/-- Two's complement on `bits` bits. -/
def signedRange (bits : Nat) : Int × Int :=
  let half : Int := Nat.pow 2 (bits - 1)
  (-half, half - 1)

/-- The upper bound is `2 ^ bits`, one past the largest number, unless `exact` asks for that. -/
def unsignedRange (bits : Nat) (exact : Bool) : Int × Int :=
  let top : Int := Nat.pow 2 bits
  (0, if exact then top - 1 else top)

namespace Kind

/-- The magnitude up to which a float kind is taken to hold every integer. -/
def floatLimit? : Kind → Option Nat
  | f32 => some (Nat.pow 2 24)
  | f64 => some (Nat.pow 2 53 - 1)
  | _ => none

/-- What is said of a kind that has no float limit. -/
def noFloatLimitMessage (k : Kind) : String :=
  "not a float kind: NumericKind." ++ k.spelling.toUpper

/-- The least and the greatest integer of a kind. -/
def integerRange (k : Kind) (exact : Bool) : Int × Int :=
  match k.floatLimit? with
  | some limit => (-limit, limit)
  | none => if k.isSigned then signedRange k.bits else unsignedRange k.bits exact

/-- Whether a kind can hold a value. A double fits only a float kind, within its limit. -/
def admits (k : Kind) (exact : Bool) : LiteralValue → Bool
  | .double value => k.floatLimit?.any fun limit => value.within limit
  | .integer value =>
    let (low, high) := k.integerRange exact
    decide (low ≤ value) && decide (value ≤ high)

end Kind

/-- The kinds that can hold a value, in declaration order. -/
def admissibleKinds (exact : Bool) (value : LiteralValue) : List Kind :=
  Kind.all.filter fun k => k.admits exact value

end ConstFun
