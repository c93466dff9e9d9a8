import ConstFun.Text.Blank

namespace ConstFun

inductive LogLevel where
  | silent
  | error
  | warning
  | info
  | debug
  deriving DecidableEq, Repr

namespace LogLevel

def all : List LogLevel := [silent, error, warning, info, debug]

def label : LogLevel → String
  | silent => "SILENT"
  | error => "ERROR"
  | warning => "WARNING"
  | info => "INFO"
  | debug => "DEBUG"

/-- A level admits the levels of no greater rank. -/
def rank : LogLevel → Nat
  | silent => 0
  | error => 3
  | warning => 6
  | info => 10
  | debug => 30

def ofLabel? (name : String) : Option LogLevel := all.find? fun l => l.label == name

end LogLevel

/-- The ASCII capitals that a character becomes in upper case, for the characters that become
nothing else. -/
def capitals? (c : Char) : Option (List Char) :=
  match c.toNat with
  | 0xdf => some ['S', 'S']
  | 0x131 => some ['I']
  | 0x17f => some ['S']
  | 0xfb00 => some ['F', 'F']
  | 0xfb01 => some ['F', 'I']
  | 0xfb02 => some ['F', 'L']
  | 0xfb03 => some ['F', 'F', 'I']
  | 0xfb04 => some ['F', 'F', 'L']
  | 0xfb05 | 0xfb06 => some ['S', 'T']
  | code => if code < 0x80 then some [c.toUpper] else none

/-- The level a setting names, in any case and with blanks around it; `fallback` if it is missing
or names none. -/
def LogLevel.ofSetting (setting : Option String) (fallback : LogLevel) : LogLevel :=
  let word := trimBoth isBlank (setting.getD "").toList
  match word.mapM capitals? with
  | some name => (LogLevel.ofLabel? (String.ofList name.flatten)).getD fallback
  | none => fallback

/-- A logged message. A trace is written only if traces are asked for. -/
structure Event where
  level : LogLevel
  text : String
  tag : Option String := none
  isTrace : Bool := false
  deriving DecidableEq, Repr

namespace Event

def error (text : String) : Event := { level := .error, text }

def warning (text : String) : Event := { level := .warning, text }

def info (text : String) : Event := { level := .info, text }

def debug (text : String) : Event := { level := .debug, text }

def trace (text : String) : Event :=
  { level := .debug, text, tag := some "TRACE", isTrace := true }

/-- The start of a stage, on a file if one is named. -/
def stage (name : String) (filename : Option String := none) : Event :=
  match filename.filter (· ≠ "") with
  | some file => info s!"{name} '{file}'"
  | none => info s!"{name}..."

end Event

/-- What is written: the events up to a level, traces or not, with or without time and tag. -/
structure LogSettings where
  rich : Bool := false
  level : LogLevel := .warning
  trace : Bool := false
  deriving DecidableEq, Repr

namespace LogSettings

def admits (s : LogSettings) (e : Event) : Bool :=
  (s.trace || !e.isTrace) && decide (e.level.rank ≤ s.level.rank)

/-- Time and tag; an empty tag gives way to the level's name. -/
def heading (s : LogSettings) (time : String) (e : Event) : String :=
  let tag := (e.tag.filter (· ≠ "")).getD e.level.label
  if s.rich then s!"{time} [{tag}] " else ""

end LogSettings

/-- Adds an event to a journal, if the settings admit it. Without settings every event is kept. -/
def Event.noteIn (settings : Option LogSettings) (journal : Array Event) (e : Event) :
    Array Event :=
  if settings.all (·.admits e) then journal.push e else journal

/-- The events that are written. Without settings every event is. -/
def writtenEvents (settings : Option LogSettings) (events : List Event) : List Event :=
  events.filter fun e => settings.all (·.admits e)

/-- The lines that one event is written in. Without settings each message stands after a notice. -/
def Event.lines (time : String) (settings : Option LogSettings) (e : Event) : List String :=
  match settings with
  | none => ["No context provided for logging.", e.text]
  | some s => [s.heading time e ++ e.text]

/-- What a list of events writes. The clock tells the time of each message that is written. -/
def renderLog (clock : Nat → String) (settings : Option LogSettings) (events : List Event) :
    String :=
  let lines := (writtenEvents settings events).mapIdx fun n e => e.lines (clock n) settings
  String.join (lines.flatten.map (· ++ "\n"))

end ConstFun
