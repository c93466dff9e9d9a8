namespace ConstFun

/-- The number of leading slashes (two are kept, more count as one), and the parts between slashes
without the empty ones and the single dots. -/
structure PathName where
  slashes : Nat := 0
  parts : List String := []
  deriving DecidableEq, Repr

namespace PathName

def leadingSlashes (path : String) : Nat :=
  let count := (path.toList.takeWhile (· = '/')).length
  if count ≤ 2 then count else 1

def ofText (path : String) : PathName :=
  let parts := (path.toList.splitOn '/').map String.ofList
  ⟨leadingSlashes path, parts.filter fun part => part ≠ "" ∧ part ≠ "."⟩

def join (slashes : Nat) (parts : List String) : String :=
  String.ofList (List.replicate slashes '/') ++ "/".intercalate parts

/-- The path without parts is the dot. -/
def text (p : PathName) : String :=
  let joined := join p.slashes p.parts
  if joined = "" then "." else joined

def isAbsolute (p : PathName) : Bool := 0 < p.slashes

/-- The last part. -/
def name (p : PathName) : String := p.parts.getLast?.getD ""

/-- The name up to its last dot, and the suffix from there; a dot at either end starts no
suffix. -/
def splitSuffix (name : String) : String × String :=
  let reversed := name.toList.reverse
  let extension := (reversed.takeWhile (· ≠ '.')).reverse
  let stem := ((reversed.dropWhile (· ≠ '.')).drop 1).reverse
  if extension.isEmpty || stem.isEmpty then (name, "")
  else (String.ofList stem, "." ++ String.ofList extension)

def stem (p : PathName) : String := (splitSuffix p.name).1

def withSuffix (p : PathName) (suffix : String) : PathName :=
  { p with parts := p.parts.dropLast ++ [p.stem ++ suffix] }

/-- Follows the parts from the root; a double dot goes back one part, and stays at the root. -/
def resolve (parts : List String) : List String :=
  parts.foldl (fun done part => if part = ".." then done.dropLast else done ++ [part]) []

/-- The absolute path of a path in a directory. -/
def absolute (directory path : String) : String :=
  let p := ofText (if path.startsWith "/" then path else directory ++ "/" ++ path)
  join p.slashes (resolve p.parts)

end PathName

end ConstFun
