import ConstFun.Fault

namespace ConstFun

/-- A variable that is the root of its class, a variable merged into another node, or a kind. -/
inductive TypeNode where
  | free
  | merged (parent : Handle)
  | concrete (kind : Kind)
  deriving DecidableEq, Repr

def TypeNode.kind? : TypeNode → Option Kind
  | .concrete k => some k
  | _ => none

structure TypeGraph where
  nodes : Array TypeNode := #[]
  deriving DecidableEq, Repr

namespace TypeGraph

def size (g : TypeGraph) : Nat := g.nodes.size

def node? (g : TypeGraph) (h : Handle) : Option TypeNode :=
  if 0 ≤ h then g.nodes[h.toNat]? else none

def node (g : TypeGraph) (h : Handle) : Except Fault TypeNode :=
  match g.node? h with
  | some n => .ok n
  | none => .error ⟨.unknownHandle h, none⟩

/-- The kind of a node itself, whatever its class. -/
def kindOf (g : TypeGraph) (h : Handle) : Except Fault (Option Kind) :=
  (g.node h).map TypeNode.kind?

def isVariable (g : TypeGraph) (h : Handle) : Except Fault Bool := (g.kindOf h).map Option.isNone

def parent? (g : TypeGraph) (h : Handle) : Option Handle :=
  match g.node? h with
  | some (.merged p) => some p
  | _ => none

/-- A handle of no node counts as a root. -/
def isRoot (g : TypeGraph) (h : Handle) : Bool := (g.parent? h).isNone

def add (g : TypeGraph) (n : TypeNode) : Handle × TypeGraph :=
  ((g.size : Int), ⟨g.nodes.push n⟩)

def newVariable (g : TypeGraph) : Handle × TypeGraph := g.add .free

/-- The one node of a kind, made on first use. -/
def concrete (g : TypeGraph) (k : Kind) : Handle × TypeGraph :=
  match g.nodes.findIdx? (· = .concrete k) with
  | some i => ((i : Int), g)
  | none => g.add (.concrete k)

/-- The handles from `h` up to its root, the root left out, at most `fuel` of them. -/
def chain (g : TypeGraph) : (fuel : Nat) → Handle → List Handle
  | 0, _ => []
  | fuel + 1, h =>
    match g.parent? h with
    | some p => h :: g.chain fuel p
    | none => []

/-- The end of the parents above `h`; a chain without a circle is no longer than the graph. -/
def rootWithin (g : TypeGraph) : (fuel : Nat) → Handle → Handle
  | 0, h => h
  | fuel + 1, h =>
    match g.parent? h with
    | some p => g.rootWithin fuel p
    | none => h

def root (g : TypeGraph) (h : Handle) : Handle := g.rootWithin g.size h

def setParent (g : TypeGraph) (h parent : Handle) : TypeGraph :=
  ⟨g.nodes.setIfInBounds h.toNat (.merged parent)⟩

/-- The root of a handle's class. Every node on the way is linked to it directly. -/
def find (g : TypeGraph) (h : Handle) : Handle × TypeGraph :=
  let root := g.root h
  (root, (g.chain g.size h).foldl (fun g' child => g'.setParent child root) g)

/-- Makes `target` the parent of a variable that is a root. -/
def union (g : TypeGraph) (child target : Handle) : Except Fault TypeGraph := do
  match ← g.node child with
  | .concrete k => throw ⟨.mergedConcrete k child, none⟩
  | .merged _ => throw ⟨.mergedTwice child, none⟩
  | .free =>
    if child = target then throw ⟨.mergedIntoItself child, none⟩
    let _ ← g.node target
    return g.setParent child target

/-- The kind of a handle's class. -/
def classKind (g : TypeGraph) (h : Handle) : Except Fault (Option Kind) := g.kindOf (g.root h)

/-- A variable is shown by its handle, a concrete node by its kind. -/
def describe (g : TypeGraph) (h : Handle) : Except Fault String := do
  match ← g.kindOf h with
  | some k => return k.spelling
  | none => return s!"?{h}"

/-- Every merged node with its parent, in ascending order. -/
def parents (g : TypeGraph) : List (Handle × Handle) :=
  (List.range g.size).filterMap fun (i : Nat) => (g.parent? i).map fun p => ((i : Int), p)

end TypeGraph

end ConstFun
