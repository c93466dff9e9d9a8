import ConstFun.Inference.Solver
import ConstFun.Program.Parse
import ConstFun.Token.Scan

namespace ConstFun

inductive NameProblem where
  | duplicateFunction (name : String)
  | unknownExport (name : String)
  | duplicateAlias (publicName : String)
  deriving DecidableEq, Repr

namespace NameProblem

def code : NameProblem → Code
  | .duplicateFunction _ => ⟨.res, 10⟩
  | .unknownExport _ => ⟨.res, 20⟩
  | .duplicateAlias _ => ⟨.res, 21⟩

def message (p : NameProblem) : String :=
  p.code.tag <|
    match p with
    | .duplicateFunction name => s!"function with name '{name}' already exists"
    | .unknownExport name => s!"cannot export unknown function '{name}'"
    | .duplicateAlias publicName => s!"duplicate export name '{publicName}'"

end NameProblem

/-- Why a well-typed literal cannot be compiled. -/
inductive LoweringProblem where
  | unresolved (text : String)
  | unsupported (kind : Kind)
  | unfit (text : String) (kind : Kind)
  deriving DecidableEq, Repr

namespace LoweringProblem

def code : LoweringProblem → Code
  | .unresolved _ => ⟨.gen, 10⟩
  | .unsupported _ => ⟨.gen, 20⟩
  | .unfit _ _ => ⟨.gen, 40⟩

def message (p : LoweringProblem) : String :=
  p.code.tag <|
    match p with
    | .unresolved text =>
      s!"type variable could not be narrowed: numeric literal '{text}' needs a type annotation"
    | .unsupported kind => s!"type {kind.spelling} is not supported by the wasm backend"
    | .unfit text kind => s!"numeric literal '{text}' does not fit in {kind.spelling}"

end LoweringProblem

inductive Problem where
  | lexical (e : LexError)
  | grammar (e : ParseError)
  | missingFile (path : String)
  | naming (p : NameProblem)
  | typing (p : TypeProblem)
  | ambiguous (text : String)
  | lowering (p : LoweringProblem)
  | reported (message : String)
  deriving DecidableEq, Repr

namespace Problem

def code? : Problem → Option Code
  | .lexical e => some e.problem.code
  | .grammar e => some e.problem.code
  | .missingFile _ => some ⟨.drv, 10⟩
  | .naming p => some p.code
  | .typing p => some p.code
  | .ambiguous _ => some ⟨.typ, 40⟩
  | .lowering p => some p.code
  | .reported _ => none

def message : Problem → String
  | .lexical e => "syntax: " ++ e.message
  | .grammar e => e.message
  | .missingFile path =>
    "file: " ++ Code.tag ⟨.drv, 10⟩ s!"FF source file not found: {path}"
  | .naming p => p.message
  | .typing p => p.message
  | .ambiguous text =>
    Code.tag ⟨.typ, 40⟩
      s!"type of numeric literal '{text}' could not be narrowed to a single kind"
  | .lowering p => p.message
  | .reported message => message

end Problem

end ConstFun
