import ConstFun.PathName
import ConstFun.Table
import ConstFun.Text.Blank
import ConstFun.Text.Quoted

namespace ConstFun

inductive FileProblem where
  | notFound
  | notDirectory
  | isDirectory
  /-- Any other, by the number and the text that the system has for it. -/
  | other (number : Nat) (text : String)
  deriving DecidableEq, Repr

structure FileError where
  problem : FileProblem
  path : PathName
  deriving DecidableEq, Repr

def FileError.message (e : FileError) : String :=
  let path := quoted e.path.text
  match e.problem with
  | .notFound => s!"[Errno 2] No such file or directory: {path}"
  | .notDirectory => s!"[Errno 20] Not a directory: {path}"
  | .isDirectory => s!"[Errno 21] Is a directory: {path}"
  | .other number text => s!"[Errno {number}] {text}: {path}"

/-- Why a text could not be read: there is no such file, or its bytes are not UTF-8. -/
inductive ReadError where
  | file (e : FileError)
  | undecodable
  deriving DecidableEq, Repr

/-- Why a text could not be written: its file could not be opened, or writing stopped with a
message before the end. -/
inductive WriteError where
  | file (e : FileError)
  | stopped (message : String)
  deriving DecidableEq, Repr

/-- The text of a file's bytes, with line feeds at its line ends. -/
def decodeText (bytes : ByteArray) : Except ReadError String :=
  match String.fromUTF8? bytes with
  | some text => .ok (String.ofList (unifyNewlines text.toList))
  | none => .error .undecodable

/-- How the text of a file is read. -/
abbrev TextReader := PathName → Except ReadError String

/-- What stands at a place. A device has bytes to read and keeps none that are written. -/
inductive FileEntry where
  | file (bytes : ByteArray)
  | directory
  | device (bytes : ByteArray)
  | link (target : PathName)

/-- What the system makes of a path that leads somewhere: why it cannot be opened for reading or
for writing, and after how many bytes writing to it stops and with which message. -/
structure Access where
  reading : Option FileProblem := none
  opening : Option FileProblem := none
  writing : Option (Nat × String) := none

/-- Entries by their parts below the root, the working directory, and what the system makes of each
path. -/
structure FileTree where
  entries : Table (List String) FileEntry := {}
  home : List String := []
  access : PathName → Access := fun _ => {}

namespace FileTree

def entry? (t : FileTree) (parts : List String) : Option FileEntry :=
  if parts = [] then some .directory else t.entries.get? parts

/-- The tree with an entry at a place. -/
def put (t : FileTree) (place : List String) (entry : FileEntry) : FileTree :=
  { t with entries := t.entries.insert place entry }

/-- Makes a directory and those above it, where there is none. -/
def addDirectory (t : FileTree) (parts : List String) : FileTree :=
  (List.range (parts.length + 1)).foldl
    (fun t count =>
      let above := parts.take count
      if (t.entry? above).isSome then t else t.put above .directory)
    t

/-- Puts an entry at a place, and makes the directories above it. -/
def add (t : FileTree) (parts : List String) (entry : FileEntry) : FileTree :=
  (t.addDirectory parts.dropLast).put parts entry

/-- Follows parts from a place. Every place on the way must be a directory; a double dot leads to
the one above, and from the root to the root. The first link is left to `follow`, with its place,
its target and the parts behind it. -/
def walk (t : FileTree)
    (follow : List String → PathName → List String → Except FileProblem (List String)) :
    List String → List String → Except FileProblem (List String)
  | here, [] => .ok here
  | here, part :: rest =>
    match t.entry? here with
    | none => .error .notFound
    | some .directory =>
      let next := if part = ".." then here.dropLast else here ++ [part]
      match t.entry? next with
      | some (.link target) => follow here target rest
      | _ => t.walk follow next rest
    | some _ => .error .notDirectory

/-- Follows a path and the parts behind it from a directory, through fewer links than `fuel`. -/
def follow (t : FileTree) (fuel : Nat) (here : List String) (p : PathName) (rest : List String) :
    Except FileProblem (List String) :=
  match fuel with
  | 0 => .error (.other 40 "Too many levels of symbolic links")
  | fuel + 1 => t.walk (t.follow fuel) (if p.isAbsolute then [] else here) (p.parts ++ rest)

/-- Where a path leads, through 40 links at most. -/
def locate (t : FileTree) (p : PathName) : Except FileProblem (List String) :=
  t.follow 41 t.home p []

def readBytes (t : FileTree) (p : PathName) : Except FileError ByteArray :=
  match t.locate p, (t.access p).reading with
  | .error problem, _ | .ok _, some problem => .error ⟨problem, p⟩
  | .ok place, none =>
    match t.entry? place with
    | some (.file bytes) | some (.device bytes) => .ok bytes
    | some .directory => .error ⟨.isDirectory, p⟩
    | some (.link _) | none => .error ⟨.notFound, p⟩

def readText (t : FileTree) : TextReader := fun p =>
  match t.readBytes p with
  | .error e => .error (.file e)
  | .ok bytes => decodeText bytes

/-- Keeps bytes in a file at a place; a device keeps none. -/
def keep (t : FileTree) (place : List String) (bytes : ByteArray) : FileTree :=
  match t.entry? place with
  | some (.device _) => t
  | _ => t.put place (.file bytes)

/-- Opens a path for writing, and gives its place. A file that was there is emptied, and one that
was not there is made. -/
def openToWrite (t : FileTree) (p : PathName) : Except FileError (List String × FileTree) :=
  match t.locate p, (t.access p).opening with
  | .error problem, _ | .ok _, some problem => .error ⟨problem, p⟩
  | .ok place, none =>
    match t.entry? place with
    | some .directory => .error ⟨.isDirectory, p⟩
    | some (.link _) => .error ⟨.notFound, p⟩
    | _ => .ok (place, t.keep place .empty)

/-- Writes a text to a path: opens it, and then writes the bytes of the text as far as the system
takes them. What was there before is gone also if that is not the whole text. -/
def writeText (t : FileTree) (p : PathName) (text : String) : Except WriteError Unit × FileTree :=
  match t.openToWrite p with
  | .error e => (.error (.file e), t)
  | .ok (place, opened) =>
    let bytes := text.toUTF8
    match (t.access p).writing with
    | none => (.ok (), opened.keep place bytes)
    | some (limit, message) =>
      if bytes.size ≤ limit then (.ok (), opened.keep place bytes)
      else (.error (.stopped message), opened.keep place (bytes.extract 0 limit))

/-- Whether a file with just these bytes stands at a place. -/
def holds (t : FileTree) (parts : List String) (bytes : ByteArray) : Bool :=
  match t.entry? parts with
  | some (.file present) => decide (present.data = bytes.data)
  | _ => false

/-- The files of the second tree that are new, or whose bytes differ. -/
def written (old new : FileTree) : List (List String × ByteArray) :=
  new.entries.entries.filterMap fun
    | (parts, .file bytes) => if old.holds parts bytes then none else some (parts, bytes)
    | _ => none

end FileTree

end ConstFun
