import Variability.Edit
import Variability.Formula
import Variability.HunkRange
import Variability.NodeKind

/-!
Variation trees. A tree overlays the nesting of a file before and after an edit on one set of
nodes, kept in an array in the order of their lines. A node refers to others by their position in
the array; on each side it has at most one parent and an ordered list of children.
-/

namespace Variability

/-- The diff lines that a node was built from, first and last; both are 0 for a node that has no
line. -/
structure LineSpan where
  first : Nat
  last : Nat
  deriving DecidableEq, Repr, Inhabited

/-- Where a tree comes from. The path is empty for the graph of a whole commit. -/
structure Source where
  path : String
  commit : String
  hunk : Option HunkRange
  deriving DecidableEq, Repr, Inhabited

/-- The neighbours of a node on one side. -/
structure Links where
  parent : Option Nat
  children : List Nat
  deriving DecidableEq, Repr, Inhabited

def Links.none : Links :=
  ⟨Option.none, []⟩

structure Node where
  id : Nat
  kind : NodeKind
  edit : Edit
  /-- The text of a line of code, the normal form of a guard, empty otherwise. -/
  label : String
  guard : Option Formula
  lines : LineSpan
  before : Links
  after : Links
  deriving DecidableEq, Repr

namespace Node

/-- A node that nothing is linked to yet. -/
def fresh (id : Nat) (kind : NodeKind) (edit : Edit) (label : String) : Node where
  id
  kind
  edit
  label
  guard := none
  lines := ⟨0, 0⟩
  before := .none
  after := .none

instance : Inhabited Node :=
  ⟨fresh 0 .code .kept ""⟩

/-- A root exists on both sides whatever its edit. -/
def existsOn (n : Node) (s : Side) : Bool :=
  n.kind = .root || n.edit.existsOn s

def links (n : Node) : Side → Links
  | .before => n.before
  | .after => n.after

def setLinks (n : Node) (s : Side) (l : Links) : Node :=
  match s with
  | .before => { n with before := l }
  | .after => { n with after := l }

def parent (n : Node) (s : Side) : Option Nat :=
  (n.links s).parent

def children (n : Node) (s : Side) : List Nat :=
  (n.links s).children

def setParent (n : Node) (s : Side) (p : Option Nat) : Node :=
  n.setLinks s { n.links s with parent := p }

def setChildren (n : Node) (s : Side) (cs : List Nat) : Node :=
  n.setLinks s { n.links s with children := cs }

@[simp] theorem links_setLinks_self (n : Node) (s : Side) (l : Links) :
    (n.setLinks s l).links s = l := by
  cases s <;> rfl

@[simp] theorem links_setLinks_other (n : Node) (s : Side) (l : Links) :
    (n.setLinks s l).links s.other = n.links s.other := by
  cases s <;> rfl

end Node

/-- A tree has one root that owns every top-level node; a graph has none. -/
inductive Shape where
  | tree
  | graph
  deriving DecidableEq, Repr, Inhabited

def Shape.name : Shape → String
  | tree => "tree"
  | graph => "graph"

structure Tree where
  nodes : Array Node
  shape : Shape
  source : Source
  deriving DecidableEq, Repr, Inhabited

namespace Tree

def empty (shape : Shape) (source : Source) : Tree :=
  ⟨#[], shape, source⟩

/-- Appends a node; its position is the former size. -/
def push (t : Tree) (n : Node) : Tree :=
  { t with nodes := t.nodes.push n }

/-- The tree of a file without lines: a root and nothing else. -/
def singleton (source : Source) : Tree :=
  (empty .tree source).push (.fresh 0 .root .kept "")

def size (t : Tree) : Nat :=
  t.nodes.size

/-- The node at a position; past the end there stands a fresh one. -/
def node (t : Tree) (i : Nat) : Node :=
  t.nodes[i]?.getD default

def modify (t : Tree) (i : Nat) (f : Node → Node) : Tree :=
  { t with nodes := t.nodes.modify i f }

/-- Positions and nodes, in order. -/
def entries (t : Tree) : List (Nat × Node) :=
  t.nodes.toList.zipIdx.map Prod.swap

def parent (t : Tree) (s : Side) (i : Nat) : Option Nat :=
  (t.node i).parent s

def children (t : Tree) (s : Side) (i : Nat) : List Nat :=
  (t.node i).children s

/-- The positions of the nodes that pass a test, in order. -/
def positions (t : Tree) (test : Node → Bool) : List Nat :=
  (t.entries.filter fun (_, n) => test n).map Prod.fst

/-- Whether there is no node but roots. -/
def isEmpty (t : Tree) : Bool :=
  t.nodes.all (·.kind = .root)

def root? (t : Tree) : Option Nat :=
  (t.positions (·.kind = .root)).head?

/-- The lines of code, in order. -/
def codeNodes (t : Tree) : List Nat :=
  t.positions (·.kind = .code)

def findId? (t : Tree) (id : Nat) : Option Nat :=
  (t.positions (·.id = id)).head?

@[simp] theorem size_push (t : Tree) (n : Node) : (t.push n).size = t.size + 1 := by
  simp [push, size]

@[simp] theorem size_modify (t : Tree) (i : Nat) (f : Node → Node) :
    (t.modify i f).size = t.size := by
  simp [modify, size]

theorem node_push_self (t : Tree) (n : Node) : (t.push n).node t.size = n := by
  simp [push, node, size]

theorem node_push_of_lt {t : Tree} {i : Nat} (n : Node) (h : i < t.size) :
    (t.push n).node i = t.node i := by
  simp only [push, node]
  rw [Array.getElem?_push_lt (h := h), Array.getElem?_eq_getElem h]

theorem mem_entries {t : Tree} {i : Nat} {n : Node} :
    (i, n) ∈ t.entries ↔ t.nodes[i]? = some n := by
  simp only [entries, List.mem_map, Prod.exists, Prod.swap_prod_mk, Prod.mk.injEq,
    List.mem_zipIdx_iff_getElem?, Array.getElem?_toList]
  constructor
  · rintro ⟨_, _, h, rfl, rfl⟩
    exact h
  · intro h
    exact ⟨n, i, h, rfl, rfl⟩

end Tree

end Variability
