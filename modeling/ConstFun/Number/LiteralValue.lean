import ConstFun.Number.Reading

namespace ConstFun

/-- A literal denotes an integer exactly, or a double. -/
inductive LiteralValue where
  | integer (value : Int)
  | double (value : Binary64)
  deriving DecidableEq, Repr

/-- The value of a literal's text. A decimal with an integral value denotes that integer. -/
def literalValue (text : String) (isDecimal : Bool) : Except NumberError LiteralValue :=
  if isDecimal then do
    let value ← readDecimal text
    match value.isIntegral, value.truncate? with
    | true, some whole => return .integer whole
    | _, _ => return .double value
  else return .integer (← readInteger text)

/-- The double nearest to a value; an integer beyond the largest double has none. -/
def LiteralValue.toDouble : LiteralValue → Except NumberError Binary64
  | .double value => .ok value
  | .integer value =>
    match Binary64.ofInt value with
    | .infinite _ => .error .integerTooLarge
    | rounded => .ok rounded

/-- A value without its fraction. -/
def LiteralValue.toInteger : LiteralValue → Except NumberError Int
  | .integer value => .ok value
  | .double .nan => .error .nanToInteger
  | .double value =>
    match value.truncate? with
    | some whole => .ok whole
    | none => .error .infinityToInteger

end ConstFun
