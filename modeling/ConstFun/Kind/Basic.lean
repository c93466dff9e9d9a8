namespace ConstFun

inductive NumericClass where
  | signed
  | unsigned
  | float
  deriving DecidableEq, Repr

def NumericClass.label : NumericClass → String
  | .signed => "signed"
  | .unsigned => "unsigned"
  | .float => "float"

/-- The ten concrete representations of a number. -/
inductive Kind where
  | i8 | i16 | i32 | i64
  | u8 | u16 | u32 | u64
  | f32 | f64
  deriving DecidableEq, Repr

namespace Kind

/-- Every kind, in declaration order. -/
def all : List Kind := [i8, i16, i32, i64, u8, u16, u32, u64, f32, f64]

theorem mem_all (k : Kind) : k ∈ all := by
  cases k <;> decide

def spelling : Kind → String
  | i8 => "i8"
  | i16 => "i16"
  | i32 => "i32"
  | i64 => "i64"
  | u8 => "u8"
  | u16 => "u16"
  | u32 => "u32"
  | u64 => "u64"
  | f32 => "f32"
  | f64 => "f64"

def numericClass : Kind → NumericClass
  | i8 | i16 | i32 | i64 => .signed
  | u8 | u16 | u32 | u64 => .unsigned
  | f32 | f64 => .float

def bits : Kind → Nat
  | i8 | u8 => 8
  | i16 | u16 => 16
  | i32 | u32 | f32 => 32
  | i64 | u64 | f64 => 64

def isSigned (k : Kind) : Bool := k.numericClass == .signed

def isUnsigned (k : Kind) : Bool := k.numericClass == .unsigned

def isFloat (k : Kind) : Bool := k.numericClass == .float

/-- The kind a type name spells. -/
def ofSpelling? (name : String) : Option Kind := all.find? fun k => k.spelling == name

/-- The kinds of a class, in declaration order. -/
def ofClass (c : NumericClass) : List Kind := all.filter fun k => k.numericClass == c

end Kind

/-- The spelling of a known kind; an unknown one is still a variable. -/
def formatKind : Option Kind → String
  | none => "<variable>"
  | some k => k.spelling

end ConstFun
