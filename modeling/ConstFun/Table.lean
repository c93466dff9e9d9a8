namespace ConstFun

structure Table (κ β : Type) where
  entries : List (κ × β) := []
  deriving DecidableEq, Repr

namespace Table

variable {κ β : Type} [DecidableEq κ]

/-- Replaces the value of a key in its place, or adds the key at the end. -/
def insertEntry (key : κ) (value : β) : List (κ × β) → List (κ × β)
  | [] => [(key, value)]
  | (k, v) :: rest =>
    if k = key then (key, value) :: rest else (k, v) :: insertEntry key value rest

def insert (t : Table κ β) (key : κ) (value : β) : Table κ β := ⟨insertEntry key value t.entries⟩

def get? (t : Table κ β) (key : κ) : Option β :=
  (t.entries.find? fun entry => entry.1 = key).map Prod.snd

def contains (t : Table κ β) (key : κ) : Bool := (t.get? key).isSome

def erase (t : Table κ β) (key : κ) : Table κ β :=
  ⟨t.entries.filter fun entry => entry.1 ≠ key⟩

end Table

/-- Adds values to the list kept under a key. -/
def Table.addAll {κ β : Type} [DecidableEq κ] (t : Table κ (List β)) (key : κ) (values : List β) :
    Table κ (List β) :=
  t.insert key ((t.get? key).getD [] ++ values)

end ConstFun
