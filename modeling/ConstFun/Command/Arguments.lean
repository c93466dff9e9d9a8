import ConstFun.Inference.Session
import ConstFun.Text.Digit

namespace ConstFun

inductive Switch where
  | help
  | verbose
  | log
  | traceSolver
  | exactUnsignedBounds
  | noNarrowing
  | output
  | includeEof
  deriving DecidableEq, Repr

namespace Switch

/-- A switch is given by its word after two dashes. -/
def word : Switch → String
  | help => "help"
  | verbose => "verbose"
  | log => "log"
  | traceSolver => "trace-solver"
  | exactUnsignedBounds => "exact-unsigned-bounds"
  | noNarrowing => "no-narrowing"
  | output => "output"
  | includeEof => "include-eof"

/-- Some switches are also given by a letter after one dash. -/
def letter? : Switch → Option Char
  | help => some 'h'
  | verbose => some 'v'
  | log => some 'l'
  | output => some 'o'
  | includeEof => some 'I'
  | traceSolver | exactUnsignedBounds | noNarrowing => none

def takesValue (s : Switch) : Bool := s == output

/-- The switches that stand before the command. -/
def global : List Switch := [help, verbose, log, traceSolver, exactUnsignedBounds, noNarrowing]

end Switch

inductive Command where
  | build
  | generate
  | check
  | tokens
  | outline
  | types
  | constraints
  deriving DecidableEq, Repr

namespace Command

def all : List Command := [build, generate, check, tokens, outline, types, constraints]

def words : Command → List String
  | build => ["build"]
  | generate => ["gen", "codegen"]
  | check => ["check", "analyze"]
  | tokens => ["tok", "tokens"]
  | outline => ["ast"]
  | types => ["type", "types"]
  | constraints => ["constraints"]

def ofWord? (word : String) : Option Command := all.find? fun c => c.words.contains word

def switches : Command → List Switch
  | build | generate => [.help, .output]
  | tokens => [.help, .includeEof]
  | check | outline | types | constraints => [.help]

end Command

structure Invocation where
  verbosity : Nat := 0
  rich : Bool := false
  trace : Bool := false
  typing : TypingOptions := {}
  command : Command := .check
  output : Option String := none
  includeEof : Bool := false
  entry : String := ""
  deriving DecidableEq, Repr

/-- Why a command line runs no command. -/
inductive Halt where
  | help
  | usage
  deriving DecidableEq, Repr

/-- Switches from one argument. Only the last can take a value, from the same argument or from the
next. -/
structure Given where
  flags : List Switch := []
  valued : Option (Switch × Option String) := none
  deriving DecidableEq, Repr

inductive Argument where
  | plain
  | given (g : Given)
  | refused
  deriving DecidableEq, Repr

/-- Letters after one dash. A letter that takes a value takes the rest, less a sign of equality. -/
def readLetters (known : List Switch) : List Char → Option Given
  | [] => some {}
  | c :: rest =>
    match known.find? (·.letter? = some c) with
    | none => none
    | some s =>
      if !s.takesValue then
        (readLetters known rest).map fun g => { g with flags := s :: g.flags }
      else
        match rest with
        | [] => some { valued := some (s, none) }
        | '=' :: value | value => some { valued := some (s, some (String.ofList value)) }

/-- The switches whose words a text begins. -/
def switchesFrom (known : List Switch) (start : List Char) : List Switch :=
  known.filter fun s => start.isPrefixOf s.word.toList

/-- The text before the first sign of equality, and the one behind it. -/
def splitValue (text : List Char) : List Char × Option String :=
  match text.dropWhile (· ≠ '=') with
  | [] => (text, none)
  | _ :: value => (text.takeWhile (· ≠ '='), some (String.ofList value))

/-- A dash and a number, which is no switch; a line feed may follow. -/
def isNegativeNumber (text : List Char) : Bool :=
  let body := if text.getLast? = some '\n' then text.dropLast else text
  match body with
  | '-' :: digits =>
    match digits.dropWhile isDigitOfAnyScript with
    | [] => !digits.isEmpty
    | '.' :: fraction => !fraction.isEmpty && fraction.all isDigitOfAnyScript
    | _ => false
  | _ => false

/-- A text with a dash that gives no known switch. -/
def readUnknown (text : List Char) : Argument :=
  if isNegativeNumber text || text.contains ' ' then .plain else .refused

/-- A word may be cut short as long as one switch is left. -/
def readWord (known : List Switch) (text word : List Char) : Argument :=
  let (start, value) := splitValue word
  match switchesFrom known start with
  | [] => readUnknown text
  | [s] =>
    if s.takesValue then .given { valued := some (s, value) }
    else if value.isSome then .refused
    else .given { flags := [s] }
  | _ => .refused

def readArgument (known : List Switch) (text : List Char) : Argument :=
  match text with
  | '-' :: '-' :: word => readWord known text word
  | '-' :: c :: rest =>
    if known.any (·.letter? = some c) then
      match readLetters known (c :: rest) with
      | some g => .given g
      | none => .refused
    else readUnknown text
  | _ => .plain

/-- A word cut so short that several switches are left. -/
def isAmbiguous (known : List Switch) (argument : String) : Bool :=
  match argument.toList with
  | '-' :: '-' :: word => decide (1 < (switchesFrom known (splitValue word).1).length)
  | _ => false

namespace Invocation

def set (i : Invocation) : Switch → Except Halt Invocation
  | .help => .error .help
  | .verbose => .ok { i with verbosity := i.verbosity + 1 }
  | .log => .ok { i with rich := true }
  | .traceSolver => .ok { i with trace := true }
  | .exactUnsignedBounds => .ok { i with typing.exactUnsigned := true }
  | .noNarrowing => .ok { i with typing.narrowing := false }
  | .includeEof => .ok { i with includeEof := true }
  | .output => .ok i

def setValue (i : Invocation) (s : Switch) (value : String) : Invocation :=
  if s = .output then { i with output := some value } else i

/-- The arguments of a command. Two dashes may stand alone before the entry or after it, if
nothing else follows. -/
def readLocal (known : List Switch) (i : Invocation) (entry : Option String) :
    List String → Except Halt Invocation
  | [] =>
    match entry with
    | some e => .ok { i with entry := e }
    | none => .error .usage
  | argument :: rest =>
    if argument = "--" then
      match entry, rest with
      | none, [e] => .ok { i with entry := e }
      | _, _ => .error .usage
    else
      match readArgument known argument.toList with
      | .refused => .error .usage
      | .plain =>
        if entry.isSome then .error .usage
        else if rest = ["--"] then .ok { i with entry := argument }
        else readLocal known i (some argument) rest
      | .given g => do
        let i ← g.flags.foldlM set i
        match g.valued, rest with
        | none, rest => readLocal known i entry rest
        | some (s, some value), rest => readLocal known (i.setValue s value) entry rest
        | some (_, none), [] => .error .usage
        | some (s, none), value :: rest =>
          if value ≠ "--" ∧ readArgument known value.toList = .plain then
            readLocal known (i.setValue s value) entry rest
          else .error .usage

/-- The global switches, then the command. -/
def readGlobal (i : Invocation) : List String → Except Halt Invocation
  | [] => .error .usage
  | argument :: rest =>
    if argument = "--" then .error .usage
    else
      match readArgument Switch.global argument.toList with
      | .refused => .error .usage
      | .given g => do readGlobal (← g.flags.foldlM set i) rest
      | .plain =>
        match Command.ofWord? argument with
        | none => .error .usage
        | some command => readLocal command.switches { i with command } none rest

/-- The invocation that arguments ask for. An ambiguous word is refused wherever it stands, unless
two dashes come before it. -/
def ofArguments (arguments : List String) : Except Halt Invocation :=
  if (arguments.takeWhile (· ≠ "--")).any (isAmbiguous Switch.global) then .error .usage
  else readGlobal {} arguments

end Invocation

end ConstFun
