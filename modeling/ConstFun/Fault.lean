import ConstFun.Kind.Basic
import ConstFun.Program.Basic
import ConstFun.Text.Digit

namespace ConstFun

/-- Where a fault arose, as far as it is known. -/
structure Location where
  filename : Option String := none
  span : Option Span := none
  deriving DecidableEq, Repr

/-- `file:line:column` without the unknown parts; an empty file name is unknown. -/
def Location.describe (l : Location) : String :=
  let file := (l.filename.filter (· ≠ "")).toList
  let place := (l.span.map Span.startText).toList
  ":".intercalate (file ++ place)

inductive Breach where
  | unknownHandle (h : Handle)
  | mergedConcrete (k : Kind) (h : Handle)
  | mergedTwice (h : Handle)
  | mergedIntoItself (h : Handle)
  | solvedTwice
  | generatedUnsolved
  | unsupportedBody (name : String)
  | kindMismatch (name : String) (body declared : Option Kind)
  | untypedLiteral
  | reported (message : String)
  deriving DecidableEq, Repr

def Breach.message : Breach → String
  | .unknownHandle h => s!"[ICE-0100] unknown type handle {h}"
  | .mergedConcrete k h => s!"[ICE-0110] cannot merge concrete type {k.spelling} (handle {h})"
  | .mergedTwice h => s!"[ICE-0111] cannot merge non-root type variable (handle {h})"
  | .mergedIntoItself h => s!"[ICE-0112] cannot merge type variable {h} into itself"
  | .solvedTwice => "[ICE-0200] inference session solved twice"
  | .generatedUnsolved =>
    "[ICE-0300] code generation requested before type constraints were solved"
  | .unsupportedBody name => s!"[ICE-0310] unsupported function body in '{name}'"
  | .kindMismatch name body declared =>
    s!"[ICE-0320] body of '{name}' has type {formatKind body}, declared {formatKind declared}"
  | .untypedLiteral => "[ICE-0330] numeric literal has no type"
  | .reported message => message

structure Fault where
  breach : Breach
  location : Option Location := none
  deriving DecidableEq, Repr

/-- `ICE-` and four digits of any script, in brackets at the start of a text. -/
def faultCodeAt? : List Char → Option String
  | '[' :: 'I' :: 'C' :: 'E' :: '-' :: a :: b :: c :: d :: ']' :: _ =>
    if [a, b, c, d].all isDigitOfAnyScript then some ("ICE-" ++ String.ofList [a, b, c, d])
    else none
  | _ => none

/-- The first code that stands in a text. -/
def findFaultCode? : List Char → Option String
  | [] => none
  | c :: rest => faultCodeAt? (c :: rest) <|> findFaultCode? rest

namespace Fault

def message (f : Fault) : String := f.breach.message

def unlisted : String := "ICE-9999"

def code (f : Fault) : String := (findFaultCode? f.message.toList).getD unlisted

/-- Fills in the parts of the location that are still unknown. -/
def locate (f : Fault) (filename : Option String) (span : Option Span) : Fault :=
  let known := f.location.getD {}
  { f with location := some ⟨known.filename <|> filename, known.span <|> span⟩ }

/-- One line with the place, if there is one, and the message with its code. -/
def format (f : Fault) : String :=
  let place := (f.location.map Location.describe).getD ""
  let code := if (findFaultCode? f.message.toList).isNone then s!"[{unlisted}] " else ""
  let body := s!"internal compiler error: {code}{f.message}"
  if place = "" then body else s!"{place}: {body}"

end Fault

end ConstFun
