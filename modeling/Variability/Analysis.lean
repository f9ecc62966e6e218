import Variability.Formula.Satisfiability
import Variability.Presence

/-!
The analysis of one tree with one oracle. Questions about presence conditions come up many times
for the same node, so an analysis remembers what it has found; a question answered from memory
gets the answer that it would get from the tree.
-/

namespace Variability

/-- How the presence conditions of a node before and after the edit relate. -/
structure Relation where
  afterImpliesBefore : Bool
  beforeImpliesAfter : Bool
  deriving DecidableEq, Repr

/-- Why an artifact could not be classified. -/
inductive MatchError where
  | notAnArtifact (id : Nat)
  | noMatch (id : Nat)
  | presence (error : PresenceError)
  | oracle (error : OracleError)
  deriving DecidableEq, Repr

def MatchError.message : MatchError → String
  | notAnArtifact id => s!"node {id} is not a code node"
  | noMatch id => s!"no edit pattern matches node {id}"
  | presence error => s!"presence condition: {error.message}"
  | oracle error => error.message

/-- What has been found out about the nodes of a tree, by position. -/
structure Memory where
  before : Array (Option Formula)
  after : Array (Option Formula)
  relations : Array (Option Relation)

namespace Memory

/-- Nothing is known about any of `size` nodes. -/
def blank (size : Nat) : Memory :=
  ⟨.replicate size none, .replicate size none, .replicate size none⟩

def conditions (m : Memory) : Side → Array (Option Formula)
  | .before => m.before
  | .after => m.after

def condition? (m : Memory) (s : Side) (i : Nat) : Option Formula :=
  (m.conditions s)[i]?.join

def remember (m : Memory) (s : Side) (i : Nat) (f : Formula) : Memory :=
  match s with
  | .before => { m with before := m.before.setIfInBounds i (some f) }
  | .after => { m with after := m.after.setIfInBounds i (some f) }

def relation? (m : Memory) (i : Nat) : Option Relation :=
  m.relations[i]?.join

def rememberRelation (m : Memory) (i : Nat) (r : Relation) : Memory :=
  { m with relations := m.relations.setIfInBounds i (some r) }

end Memory

structure Analysis where
  tree : Tree
  oracle : Oracle

/-- A question that reads and extends the memory of an analysis, also when it fails. -/
abbrev Query (ε α : Type) := ExceptT ε (StateM Memory) α

namespace Query

def ofExcept {ε α : Type} : Except ε α → Query ε α
  | .error e => throw e
  | .ok a => return a

/-- The answer to a question that nothing came before. -/
def runFresh {ε α : Type} (q : Query ε α) (t : Tree) : Except ε α :=
  (q.run.run (.blank t.size)).1

end Query

namespace Analysis

/-- The nodes from one up to the last of unknown condition, and the condition that they inherit.
There is none when the parents never end. -/
def climbUnknown? (a : Analysis) (m : Memory) (s : Side) :
    (steps i : Nat) → Option (List Nat × Formula)
  | steps, i =>
    match m.condition? s i with
    | some known => some ([], known)
    | none =>
      match a.tree.parent s i with
      | none => some ([i], .tt)
      | some p =>
        match steps with
        | 0 => none
        | steps + 1 =>
          (climbUnknown? a m s steps p).map fun (chain, known) => (i :: chain, known)

/-- Extends an inherited condition down a chain, outermost node first, and remembers the
condition of every node passed. -/
def descendFrom (a : Analysis) (s : Side) (inherited : Formula) :
    List Nat → Query PresenceError Formula
  | [] => return inherited
  | i :: below => do
    let mapping ← Query.ofExcept (a.tree.featureMapping s i)
    let condition := Formula.conj [mapping, inherited]
    modify (·.remember s i condition)
    descendFrom a s condition below

/-- The presence condition of a node, from what is known about the nodes above it. -/
def presence (a : Analysis) (s : Side) (i : Nat) : Query PresenceError Formula := do
  match a.climbUnknown? (← get) s a.tree.size i with
  | none => throw (.cycle (a.tree.node i).id s)
  | some (chain, inherited) => a.descendFrom s inherited chain.reverse

/-- Which presence condition of a node implies the other. -/
def relation (a : Analysis) (i : Nat) : Query MatchError Relation := do
  match (← get).relation? i with
  | some known => return known
  | none =>
    let before ← (a.presence .before i).adapt .presence
    let after ← (a.presence .after i).adapt .presence
    let afterImpliesBefore ←
      (Query.ofExcept (a.oracle.implies after before)).adapt .oracle
    let beforeImpliesAfter ←
      (Query.ofExcept (a.oracle.implies before after)).adapt .oracle
    let found : Relation := ⟨afterImpliesBefore, beforeImpliesAfter⟩
    modify (·.rememberRelation i found)
    return found

end Analysis

end Variability
