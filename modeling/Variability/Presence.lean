import Variability.Tree.Path

/-!
Presence conditions: when a node is compiled, before and after the edit. A node contributes its
feature mapping, and its presence condition is the conjunction of the mappings of the node and of
everything above it on that side:

* an `if` branch contributes its guard;
* an `elif` branch contributes its guard and the negation of every earlier branch of the same
  conditional, an `else` branch those negations alone;
* the root, code and `endif` contribute nothing.

Earlier branches are looked for on the side that is asked about, so a branch that exists only
after the edit has no bearing on a condition before it.
-/

namespace Variability

inductive PresenceError where
  | absentOnSide (id : Nat) (side : Side)
  | missingCondition (id : Nat)
  | cycle (id : Nat) (side : Side)
  deriving DecidableEq, Repr

def PresenceError.message : PresenceError → String
  | absentOnSide id side => s!"node {id} does not exist {side.name} the edit"
  | missingCondition id => s!"conditional node {id} has no guard"
  | cycle id side => s!"{side.name} ancestors of node {id} form a cycle"

namespace Tree

/-- The guard of a branch. -/
def guard (t : Tree) (i : Nat) : Except PresenceError Formula :=
  match (t.node i).guard with
  | none => .error (.missingCondition (t.node i).id)
  | some formula => .ok formula

/-- The branches at the start of a list of siblings, up to and with the `if` that opens their
conditional. -/
def branchRun (t : Tree) : List Nat → List Nat
  | [] => []
  | j :: js =>
    match (t.node j).kind with
    | .elifBranch => j :: branchRun t js
    | .ifBranch => [j]
    | .root | .elseBranch | .endif | .code => []

/-- The earlier branches of the conditional that a branch belongs to, nearest first. -/
def earlierBranches (t : Tree) (s : Side) (i : Nat) : List Nat :=
  match t.parent s i with
  | none => []
  | some p =>
    if i ∈ t.children s p then t.branchRun ((t.children s p).takeWhile (· ≠ i)).reverse else []

/-- The negated guards of branches. -/
def negatedGuards (t : Tree) : List Nat → Except PresenceError (List Formula)
  | [] => .ok []
  | j :: js =>
    match t.guard j with
    | .error e => .error e
    | .ok g =>
      match negatedGuards t js with
      | .error e => .error e
      | .ok gs => .ok (g.neg :: gs)

/-- What a node itself contributes to presence conditions. -/
def featureMapping (t : Tree) (s : Side) (i : Nat) : Except PresenceError Formula :=
  let n := t.node i
  if !n.existsOn s then .error (.absentOnSide n.id s)
  else
    match n.kind with
    | .root | .code | .endif => .ok .tt
    | .ifBranch => t.guard i
    | .elifBranch =>
      match t.guard i with
      | .error e => .error e
      | .ok g => (t.negatedGuards (t.earlierBranches s i)).map fun gs => .conj (g :: gs)
    | .elseBranch => (t.negatedGuards (t.earlierBranches s i)).map .conj

/-- The condition under which a chain of nodes, innermost first, is compiled. -/
def conditionAlong (t : Tree) (s : Side) : List Nat → Except PresenceError Formula
  | [] => .ok .tt
  | i :: above =>
    match conditionAlong t s above with
    | .error e => .error e
    | .ok inherited => (t.featureMapping s i).map fun mapping => .conj [mapping, inherited]

/-- The condition under which a node is compiled on a side. -/
def presenceCondition (t : Tree) (s : Side) (i : Nat) : Except PresenceError Formula :=
  match t.lineage? s i with
  | none => .error (.cycle (t.node i).id s)
  | some chain => t.conditionAlong s chain

end Tree

end Variability
