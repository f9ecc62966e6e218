import Variability.Tree.Path

/-!
What makes a tree well formed, and what is wrong with one that is not. A flaw names nodes by
their ids. Linking two nodes refuses an edge that could not be part of a well-formed tree;
`firstFlaw?` looks a whole tree over, in a fixed order, so that of several flaws the same one is
always reported.
-/

namespace Variability

inductive Flaw where
  /-- A tree has no root, or several. -/
  | rootCount (found : Nat)
  | rootInGraph (id : Nat)
  | rootWithParent (id : Nat)
  | duplicateId (id : Nat)
  | missingParent (id : Nat) (side : Side)
  /-- A node is linked on a side on which it does not exist. -/
  | absentNodeLinked (id : Nat) (side : Side)
  | absentParent (id parent : Nat) (side : Side)
  | nonScopeParent (id parent : Nat)
  | multipleParents (id : Nat) (side : Side)
  /-- A parent and its list of children disagree. -/
  | childListMismatch (parent child : Nat) (side : Side)
  | cycle (id : Nat) (side : Side)
  deriving DecidableEq, Repr

def Flaw.message : Flaw → String
  | rootCount found => s!"tree format requires exactly one root, found {found}"
  | rootInGraph id => s!"graph format has root node {id}"
  | rootWithParent id => s!"root node {id} has a parent"
  | duplicateId id => s!"node id {id} is used twice"
  | missingParent id side => s!"node {id} has no {side.name} parent"
  | absentNodeLinked id side =>
    s!"node {id} does not exist {side.name} the edit but is linked there"
  | absentParent id parent side =>
    s!"{side.name} parent {parent} of node {id} does not exist {side.name} the edit"
  | nonScopeParent id parent => s!"node {parent} cannot be the parent of node {id}"
  | multipleParents id side => s!"node {id} has more than one {side.name} parent"
  | childListMismatch parent child side =>
    s!"{side.name} child list of node {parent} disagrees with parent of node {child}"
  | cycle id side => s!"node {id} lies on a {side.name} cycle"

namespace Tree

/-- What speaks against making `child` a child of `parent`. -/
def edgeFlaw? (t : Tree) (s : Side) (parent child : Nat) : Option Flaw :=
  let p := t.node parent
  let c := t.node child
  if !c.existsOn s || c.kind = .root then some (.absentNodeLinked c.id s)
  else if !p.existsOn s then some (.absentParent c.id p.id s)
  else if !p.kind.isScope then some (.nonScopeParent c.id p.id)
  else if (c.parent s).isSome then some (.multipleParents c.id s)
  else none

/-- Makes `child` the last child of `parent`. -/
def addEdge (t : Tree) (s : Side) (parent child : Nat) : Tree :=
  (t.modify child (·.setParent s (some parent))).modify parent
    fun p => p.setChildren s (p.children s ++ [child])

/-- Makes `child` the last child of `parent` in the tree at hand, unless something speaks against
it. -/
def linkIn (s : Side) (parent child : Nat) : ExceptT Flaw (StateM Tree) Unit := do
  let t ← get
  match t.edgeFlaw? s parent child with
  | some flaw => throw flaw
  | none => set (t.addEdge s parent child)

def link (t : Tree) (s : Side) (parent child : Nat) : Except Flaw Tree :=
  match (linkIn s parent child).run.run t with
  | (.error flaw, _) => .error flaw
  | (.ok (), t) => .ok t

/-- A tree has one root, a graph none. -/
def rootFlaw? (t : Tree) : Option Flaw :=
  let roots := t.positions (·.kind = .root)
  match t.shape with
  | .tree => if roots.length = 1 then none else some (.rootCount roots.length)
  | .graph => roots.head?.map fun i => .rootInGraph (t.node i).id

/-- The first number that occurs before in the list, or among those `seen`. -/
def firstRepeated? (seen : List Nat) : List Nat → Option Nat
  | [] => none
  | x :: xs => if x ∈ seen then some x else firstRepeated? (x :: seen) xs

def idFlaw? (t : Tree) : Option Flaw :=
  (firstRepeated? [] (t.nodes.toList.map (·.id))).map .duplicateId

/-- What is wrong with the parent of a node, or with having none. -/
def parentFlaw? (t : Tree) (s : Side) (i : Nat) : Option Flaw :=
  let n := t.node i
  match n.parent s with
  | none =>
    if n.existsOn s && n.kind ≠ .root && t.shape = .tree then some (.missingParent n.id s)
    else none
  | some parent =>
    let p := t.node parent
    if n.kind = .root then some (.rootWithParent n.id)
    else if !n.existsOn s then some (.absentNodeLinked n.id s)
    else if !p.existsOn s then some (.absentParent n.id p.id s)
    else if !p.kind.isScope then some (.nonScopeParent n.id p.id)
    else if (p.children s).count i ≠ 1 then some (.childListMismatch p.id n.id s)
    else none

/-- What is wrong with the children of a node. -/
def childFlaw? (t : Tree) (s : Side) (i : Nat) : Option Flaw :=
  let n := t.node i
  if !n.existsOn s && !(n.children s).isEmpty then some (.absentNodeLinked n.id s)
  else (n.children s).findSome? fun c =>
    if t.parent s c = some i then none else some (.childListMismatch n.id (t.node c).id s)

def linkFlaw? (t : Tree) : Option Flaw :=
  (List.range t.size).findSome? fun i =>
    Side.all.findSome? fun s => t.parentFlaw? s i <|> t.childFlaw? s i

/-- Whether the parents end from every start on one side, where they end from all marked nodes. A
start from which they end is marked with all nodes above it. -/
def cycleFrom? (t : Tree) (s : Side) : (ending : Marks) → (starts : List Nat) → Option Flaw
  | _, [] => none
  | ending, i :: starts =>
    match t.climbUnmarked? s ending (t.size + 1) (some i) with
    | none => some (.cycle (t.node i).id s)
    | some chain => cycleFrom? t s (ending.addAll chain) starts

/-- Parents have to end on both sides. -/
def cycleFlaw? (t : Tree) : Option Flaw :=
  Side.all.findSome? fun s => t.cycleFrom? s t.unmarked (List.range t.size)

/-- The first flaw of a tree, if it has any. -/
def firstFlaw? (t : Tree) : Option Flaw :=
  t.rootFlaw? <|> t.idFlaw? <|> t.linkFlaw? <|> t.cycleFlaw?

end Tree

end Variability
