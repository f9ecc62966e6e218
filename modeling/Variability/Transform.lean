import Variability.Tree.Path
import Variability.Tree.Restriction

/-!
Changes made to a tree before it is filtered and exported: a new label for the root, and the cut
of every subtree in which nothing was edited.
-/

namespace Variability

namespace Tree

/-- Gives the root a new label. -/
def relabelRoot (label : String) (t : Tree) : Tree :=
  match t.root? with
  | none => t
  | some i => t.modify i fun n => { n with label }

/-- The root, nodes that were added or removed, and nodes whose parent is not the same on both
sides. -/
def isEdited (n : Node) : Bool :=
  n.kind = .root || n.edit ≠ .kept || n.parent .before ≠ n.parent .after

/-- Marks the parent of a node that is marked. -/
def markParent (t : Tree) (s : Side) (marks : Marks) (i : Nat) : Marks :=
  if marks.has i then (t.parent s i).elim marks marks.add else marks

/-- Marks everything above the marked nodes of one side, children before their parents. -/
def markAbove (t : Tree) (marks : Marks) (s : Side) : Marks :=
  (t.preorder s).reverse.foldl (t.markParent s) marks

/-- Marks an `endif` whose branch is marked. -/
def markEndif (t : Tree) (marks : Marks) (i : Nat) : Marks :=
  let closesMarked := Side.all.any fun s => (t.parent s i).any marks.has
  if (t.node i).kind = .endif && closesMarked then marks.add i else marks

/-- The nodes that stay when unedited subtrees are cut: those that were edited, everything above
them on either side, and the `endif` of every branch that stays. -/
def editedMarks (t : Tree) : Marks :=
  let edited : Marks := t.nodes.map isEdited
  (List.range t.size).foldl t.markEndif (Side.all.foldl t.markAbove edited)

/-- Drops every subtree in which nothing was edited. -/
def cutUnedited (t : Tree) : Tree :=
  let marks := t.editedMarks
  t.restrict fun i _ => marks.has i

end Tree

inductive Transform where
  | relabelRoot (label : String)
  | cutUnedited
  deriving DecidableEq, Repr

namespace Transform

def apply (t : Tree) : Transform → Tree
  | relabelRoot label => t.relabelRoot label
  | cutUnedited => t.cutUnedited

/-- Applies transforms in order. -/
def applyAll (transforms : List Transform) (t : Tree) : Tree :=
  transforms.foldl apply t

end Transform

end Variability
