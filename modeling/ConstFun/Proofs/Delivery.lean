import ConstFun.Proofs.Exits
import ConstFun.Proofs.Tables

namespace ConstFun

namespace FileTree

variable {t : FileTree} {place : List String} {bytes : ByteArray} {p : PathName}

/-- A place that can be written to. -/
structure Open (t : FileTree) (place : List String) : Prop where
  no_directory : t.entry? place ≠ some .directory
  no_link : ∀ target, t.entry? place ≠ some (.link target)

/-- The path can be opened for writing, and leads to this place. -/
structure Accepts (t : FileTree) (p : PathName) (place : List String) : Prop where
  leads : t.locate p = .ok place
  allowed : (t.access p).opening = none
  free : t.Open place

/-- All of a text can be written to the path, once it is open. -/
def Takes (t : FileTree) (p : PathName) (text : String) : Prop :=
  ∀ limit message, (t.access p).writing = some (limit, message) → text.toUTF8.size ≤ limit

theorem Open.below (free : t.Open place) : place ≠ [] := by
  rintro rfl
  exact free.no_directory rfl

theorem Accepts.openToWrite (accepts : t.Accepts p place) :
    t.openToWrite p = .ok (place, t.keep place .empty) := by
  unfold FileTree.openToWrite
  rw [accepts.leads, accepts.allowed]
  dsimp only
  split
  next found => exact absurd found accepts.free.no_directory
  next target found => exact absurd found (accepts.free.no_link target)
  next => rfl

end FileTree

namespace Invocation

/-- The entry can be read and analysed, has a program without errors, and this text is generated
for it. -/
def Yields (i : Invocation) (env : Environment) (read : TextReader) (wat : String) : Prop :=
  ∃ text a, read (.ofText i.entry) = .ok text ∧
    ((i.context env).analyze (i.source text)).1 = .ok a ∧
    a.program.isSome = true ∧ a.hasErrors = false ∧ ((i.context env).generate a).1 = .ok wat

theorem Yields.unique {i : Invocation} {env : Environment} {read : TextReader} {wat wat' : String}
    (yields : i.Yields env read wat) (yields' : i.Yields env read wat') : wat = wat' := by
  obtain ⟨text, a, readable, found, -, -, generated⟩ := yields
  obtain ⟨text', a', readable', found', -, -, generated'⟩ := yields'
  cases readable.symm.trans readable'
  cases found.symm.trans found'
  exact Except.ok.inj (generated.symm.trans generated')

end Invocation

namespace Command

variable {env : Environment} {read : TextReader} {i : Invocation}

end Command

namespace FileTree

variable {i : Invocation}

end FileTree

end ConstFun
