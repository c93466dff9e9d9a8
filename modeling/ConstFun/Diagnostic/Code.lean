import ConstFun.Text.Quoted

namespace ConstFun

inductive CodeFamily where
  | lex
  | par
  | drv
  | res
  | typ
  | gen
  deriving DecidableEq, Repr

namespace CodeFamily

def all : List CodeFamily := [lex, par, drv, res, typ, gen]

def label : CodeFamily → String
  | lex => "LEX"
  | par => "PAR"
  | drv => "DRV"
  | res => "RES"
  | typ => "TYP"
  | gen => "GEN"

/-- The numbers in use within a family. -/
def numbers : CodeFamily → List Nat
  | lex => [10, 20, 30]
  | par => [10, 20, 21, 30, 31, 40, 50, 60, 61, 62, 63]
  | drv => [10]
  | res => [10, 20, 21]
  | typ => [10, 20, 30, 40]
  | gen => [10, 20, 40]

end CodeFamily

/-- A family and a number of four digits. -/
structure Code where
  family : CodeFamily
  number : Nat
  deriving DecidableEq, Repr

def Code.text (c : Code) : String :=
  c.family.label ++ "-" ++ padLeft 4 '0' (toString c.number)

/-- A message opens with its code in brackets. -/
def Code.tag (c : Code) (message : String) : String := s!"[{c.text}] {message}"

/-- The codes of a family, in ascending order. -/
def CodeFamily.codes (f : CodeFamily) : List Code := f.numbers.map (⟨f, ·⟩)

end ConstFun
