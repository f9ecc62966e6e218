import Variability.Tree

/-!
Walks over a tree. Upward walks follow parents and stop after as many steps as the tree has
nodes, so they end on every tree; the lineage of a node says whether its parents end at all.
Downward walks list every node before its children.
-/

namespace Variability.Tree

/-- The nodes from one up to the one that has no parent, when at most `steps` parents lie
between. -/
def climb? (t : Tree) (s : Side) : (steps i : Nat) → Option (List Nat)
  | steps, i =>
    match t.parent s i with
    | none => some [i]
    | some p =>
      match steps with
      | 0 => none
      | steps + 1 => (climb? t s steps p).map (i :: ·)

/-- A node and all nodes above it on one side, nearest first; none when the parents never end. -/
def lineage? (t : Tree) (s : Side) (i : Nat) : Option (List Nat) :=
  t.climb? s t.size i

/-- At most `steps` nodes, each the parent of the one before. -/
def ancestorsFrom (t : Tree) (s : Side) : (steps : Nat) → Option Nat → List Nat
  | _, none => []
  | 0, some _ => []
  | steps + 1, some p => p :: ancestorsFrom t s steps (t.parent s p)

/-- The nodes above a node, nearest first. -/
def ancestors (t : Tree) (s : Side) (i : Nat) : List Nat :=
  t.ancestorsFrom s t.size (t.parent s i)

def unmovedWithin (t : Tree) : (steps i : Nat) → Bool
  | 0, _ => false
  | steps + 1, i =>
    if t.parent .before i = t.parent .after i then
      match t.parent .before i with
      | none => true
      | some p => unmovedWithin t steps p
    else false

/-- Whether a node and everything above it has the same parent on both sides. -/
def unmoved (t : Tree) (i : Nat) : Bool :=
  t.unmovedWithin (t.size + 1) i

/-- The nodes that exist on a side and have no parent there, in order. -/
def roots (t : Tree) (s : Side) : List Nat :=
  t.positions fun n => n.existsOn s && (n.parent s).isNone

/-- A mark for each position of a tree. -/
abbrev Marks := Array Bool

namespace Marks

def has (marks : Marks) (i : Nat) : Bool :=
  marks[i]?.getD false

def add (marks : Marks) (i : Nat) : Marks :=
  marks.setIfInBounds i true

def addAll (marks : Marks) (nodes : List Nat) : Marks :=
  nodes.foldl add marks

end Marks

def unmarked (t : Tree) : Marks :=
  Array.replicate t.size false

/-- Takes at most `steps` nodes off a stack. A node that was not met before is listed, and its
children take its place on the stack. -/
def walkDown (t : Tree) (s : Side) : (steps : Nat) → (met : Marks) → (stack : List Nat) → List Nat
  | 0, _, _ => []
  | _ + 1, _, [] => []
  | steps + 1, met, i :: stack =>
    if met.has i then walkDown t s steps met stack
    else i :: walkDown t s steps (met.add i) (t.children s i ++ stack)

/-- The most nodes that a walk can take off its stack: those that are on it, and the children of
every node that was not met yet. -/
def workload (t : Tree) (s : Side) (met : Marks) (stack : List Nat) : Nat :=
  let ahead := (List.range t.size).filter fun i => !met.has i
  stack.length + (ahead.flatMap (t.children s)).length

/-- Everything below the roots of a side, every node before its children. -/
def preorder (t : Tree) (s : Side) : List Nat :=
  t.walkDown s (t.workload s t.unmarked (t.roots s)) t.unmarked (t.roots s)

/-- The nodes from one upward, up to the first that is marked or has no parent; none when there
are more than `steps`. -/
def climbUnmarked? (t : Tree) (s : Side) (marks : Marks) :
    (steps : Nat) → Option Nat → Option (List Nat)
  | _, none => some []
  | steps, some i =>
    if marks.has i then some []
    else
      match steps with
      | 0 => none
      | steps + 1 => (climbUnmarked? t s marks steps (t.parent s i)).map (i :: ·)

end Variability.Tree
