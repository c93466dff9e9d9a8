import ConstFun.Kind.Basic
import ConstFun.Number.LiteralValue

namespace ConstFun

inductive ValueType where
  | i32
  | i64
  | f32
  | f64
  deriving DecidableEq, Repr

namespace ValueType

def all : List ValueType := [i32, i64, f32, f64]

def name : ValueType → String
  | i32 => "i32"
  | i64 => "i64"
  | f32 => "f32"
  | f64 => "f64"

def ofName? (name : String) : Option ValueType := all.find? fun t => t.name == name

end ValueType

/-- The value type that holds a kind; the kinds of 8 and 16 bits have none. -/
def Kind.valueType? : Kind → Option ValueType
  | .i8 | .i16 | .u8 | .u16 => none
  | .i32 | .u32 => some .i32
  | .i64 | .u64 => some .i64
  | .f32 => some .f32
  | .f64 => some .f64

inductive EmitError where
  | dedentBelowZero
  | unknownValueType (name : String)
  | number (e : NumberError)
  deriving DecidableEq, Repr

def EmitError.message : EmitError → String
  | .dedentBelowZero => "dedent below zero"
  | .unknownValueType name => s!"not a wasm value type: {name}"
  | .number e => e.message

/-- The operand of a constant: an integer in decimal, a float exactly in hexadecimal. -/
def ValueType.operand (t : ValueType) (value : LiteralValue) : Except NumberError String :=
  match t with
  | .i32 | .i64 => return toString (← value.toInteger)
  | .f32 | .f64 => return (← value.toDouble).hex

/-- The value type of a name, with the operand of a constant of that type. -/
def typedOperand (type : String) (value : LiteralValue) : Except EmitError (ValueType × String) :=
  match ValueType.ofName? type with
  | none => .error (.unknownValueType type)
  | some t =>
    match t.operand value with
    | .ok operand => .ok (t, operand)
    | .error e => .error (.number e)

def ValueType.constant (t : ValueType) (operand : String) : String := s!"{t.name}.const {operand}"

/-- How a function is named in the text. -/
def mangle (name : String) : String := s!"${name}"

/-- The lines so far, and the level of the next one. -/
structure Emitter where
  lines : Array String := #[]
  level : Nat := 0
  deriving DecidableEq, Repr

namespace Emitter

/-- Writes a line; an empty one is not indented. -/
def emit (e : Emitter) (line : String) : Emitter :=
  let indented := String.ofList (List.replicate (2 * e.level) ' ') ++ line
  { e with lines := e.lines.push (if line = "" then "" else indented) }

def indent (e : Emitter) : Emitter := { e with level := e.level + 1 }

def dedent : EStateM EmitError Emitter Unit := fun e =>
  match e.level with
  | 0 => .error .dedentBelowZero e
  | level + 1 => .ok () { e with level }

def text (e : Emitter) : String := "\n".intercalate e.lines.toList ++ "\n"

def comment (e : Emitter) (text : String) : Emitter := e.emit s!";; {text}"

def openModule (e : Emitter) (name : String) : Emitter := (e.emit s!"(module {mangle name}").indent

/-- Ends a block. -/
def close : EStateM EmitError Emitter Unit := do
  dedent
  modify (·.emit ")")

/-- The lines of a constant; the source text stands above it where the operand reads
differently. -/
def emitConstant (e : Emitter) (type : ValueType) (operand : String) (source : Option String) :
    Emitter :=
  let commented := match source with
    | some text => if operand = text then e else e.comment text
    | none => e
  commented.emit (type.constant operand)

/-- A function that returns one constant. -/
def function (name type : String) (value : LiteralValue) (source : Option String) :
    EStateM EmitError Emitter Unit := do
  modify fun e => (e.emit s!"(func {mangle name} (result {type})").indent
  match typedOperand type value with
  | .error problem => throw problem
  | .ok (valueType, operand) =>
    modify fun e => e.emitConstant valueType operand source
    close

def exportFunction (e : Emitter) (publicName name : String) : Emitter :=
  e.emit s!"(export \"{publicName}\" (func {mangle name}))"

end Emitter

end ConstFun
