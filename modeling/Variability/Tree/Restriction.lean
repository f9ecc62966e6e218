import Variability.Tree

/-!
Parts and unions of trees. Dropping nodes closes the gaps in the array and forgets the links to
what is gone; a graph comes from a tree by dropping its root; the graph of a commit puts the
graphs of its files one behind the other.
-/

namespace Variability

/-- Renames the neighbours of a node and forgets those without a new name. -/
def Links.rename (place : Nat → Option Nat) (l : Links) : Links where
  parent := l.parent.bind place
  children := l.children.filterMap place

def Node.rename (place : Nat → Option Nat) (n : Node) : Node :=
  { n with before := n.before.rename place, after := n.after.rename place }

namespace Tree

/-- The places that the kept of a list take when the others are gone. -/
def places (next : Nat) : List Bool → List (Option Nat)
  | [] => []
  | true :: keeps => some next :: places (next + 1) keeps
  | false :: keeps => none :: places next keeps

/-- The part of a tree made of the nodes that are kept, ids and order unchanged. -/
def restrict (t : Tree) (keep : Nat → Node → Bool) : Tree :=
  let place := (places 0 (t.entries.map fun (i, n) => keep i n)).toArray
  let kept := (t.entries.filter fun (i, n) => keep i n).map Prod.snd
  { t with nodes := (kept.map (·.rename fun i => place[i]?.getD none)).toArray }

/-- Drops the root of a tree; its children become roots. A graph stays as it is. -/
def toGraph (t : Tree) : Tree :=
  match t.shape with
  | .graph => t
  | .tree => { t.restrict (fun _ n => n.kind ≠ .root) with shape := .graph }

/-- Puts the nodes of a graph behind those of another, under ids that are their positions. -/
def append (g h : Tree) : Tree :=
  let offset := g.size
  let moved := h.entries.map fun (i, n) =>
    { n.rename (fun j => some (j + offset)) with id := offset + i }
  { g with nodes := g.nodes ++ moved.toArray }

/-- The graph of a whole commit. -/
def commitGraph (commit : String) (ts : List Tree) : Tree :=
  (ts.map toGraph).foldl append (empty .graph ⟨"", commit, none⟩)

end Tree

end Variability
