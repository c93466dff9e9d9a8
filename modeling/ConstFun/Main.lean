import ConstFun.Command.Run
import Std.Time

namespace ConstFun

/-- The error of opening a file, as far as the system tells it apart. -/
def fileErrorOf (path : PathName) : IO.Error → Option FileError
  | .noFileOrDirectory .. => some ⟨.notFound, path⟩
  | .inappropriateType _ 21 _ => some ⟨.isDirectory, path⟩
  | .inappropriateType .. => some ⟨.notDirectory, path⟩
  | .permissionDenied _ number text => some ⟨.other number.toNat text, path⟩
  | _ => none

/-- Reads a file's text; a failure that has no place among file errors is passed on. -/
def readFile (path : PathName) : IO (Except ReadError String) := do
  try
    return decodeText (← IO.FS.readBinFile path.text)
  catch problem =>
    match fileErrorOf path problem with
    | some e => return .error (.file e)
    | none => throw problem

/-- Opens a file for writing; a failure that has no place among file errors is passed on. -/
def openFile (path : PathName) : IO (Except FileError IO.FS.Handle) := do
  try
    return .ok (← IO.FS.Handle.mk path.text .write)
  catch problem =>
    match fileErrorOf path problem with
    | some e => return .error e
    | none => throw problem

/-- Writes a text to a file, after opening it. -/
def writeFile (path : PathName) (text : String) : IO (Except WriteError Unit) := do
  match ← openFile path with
  | .error e => return .error (.file e)
  | .ok file =>
    try
      file.putStr text
      file.flush
      return .ok ()
    catch problem => return .error (.stopped problem.toString)

/-- A reader that knows one file. -/
def oneFile (path : PathName) (content : Except ReadError String) : TextReader := fun p =>
  if p = path then content else .error (.file ⟨.notFound, p⟩)

def currentTime : IO String := do
  let now ← Std.Time.PlainDateTime.now
  return now.format "uuuu-MM-dd HH:mm:ss"

def CommandFailure.message : CommandFailure → String
  | .reading (.file e) => e.message
  | .reading .undecodable => "the file is not encoded in UTF-8"
  | .analysis (.number e) => e.message
  | .analysis .exhausted => "the tokens end without an end token"
  | .analysis (.fault f) => f.format
  | .generation e => e.message
  | .writing (.file e) => e.message
  | .writing (.stopped message) => message

def usage : String :=
  "usage: constfun [-v] [-l] [--trace-solver] [--exact-unsigned-bounds] [--no-narrowing]\n" ++
  "                (build | gen | check | tok | ast | type | constraints) [-o OUTPUT] [-I] ENTRY\n"

/-- Runs an invocation on the file system, and gives its exit code. -/
def execute (i : Invocation) : IO UInt32 := do
  let now ← currentTime
  let env : Environment :=
    { directory := (← IO.currentDir).toString
      clock := fun _ => now
      logLevel := ← IO.getEnv "FF_LOG_LEVEL" }
  let entry := PathName.ofText i.entry
  let read := oneFile entry (← readFile entry)
  let left ← i.perform env read writeFile
  IO.print left.stdout
  IO.eprint left.stderr
  match left.result with
  | .ok code => return code.toUInt32
  | .error e =>
    IO.eprintln e.message
    return 1

def runArguments (arguments : List String) : IO UInt32 := do
  match Invocation.ofArguments arguments with
  | .ok i => execute i
  | .error .help =>
    IO.print usage
    return 0
  | .error .usage =>
    IO.eprint usage
    return 2

end ConstFun

def main (arguments : List String) : IO UInt32 := ConstFun.runArguments arguments
