import Variability.EditPattern
import Variability.KeyMap
import Variability.Tree.Flaw

/-!
Criteria that a tree has to meet to be mined. A list of criteria is a filter: they are tried in
order, and the first that a tree does not meet is charged with the rejection. Criteria ask their
questions through the analysis of the tree, so what they find out need not be found out again.
-/

namespace Variability

inductive Criterion where
  /-- There is a node besides the root. -/
  | notEmpty
  /-- There is more than one line of code. -/
  | moreThanOneArtifact
  /-- The tree is well formed. -/
  | consistent
  /-- Some line of code matches a pattern that does not leave variability as it is. -/
  | hasEditsToVariability
  deriving DecidableEq, Repr

namespace Criterion

def all : List Criterion :=
  [notEmpty, moreThanOneArtifact, consistent, hasEditsToVariability]

/-- The filter that is used unless another is asked for. -/
def standard : List Criterion :=
  [notEmpty, consistent]

def name : Criterion → String
  | notEmpty => "is not empty"
  | moreThanOneArtifact => "has more than one elementary pattern"
  | consistent => "is consistent"
  | hasEditsToVariability => "has edits to variability"

/-- The token that stands for the criterion on the command line. -/
def token : Criterion → String
  | notEmpty => "not-empty"
  | moreThanOneArtifact => "more-than-one-artifact"
  | consistent => "consistent"
  | hasEditsToVariability => "edits-to-variability"

/-- The name under which the criterion is stored with a filter. -/
def storedName : Criterion → String
  | notEmpty => "not-empty"
  | moreThanOneArtifact => "more-than-one-artifact"
  | consistent => "consistent"
  | hasEditsToVariability => "has-edits-to-variability"

def ofToken? (text : String) : Option Criterion :=
  all.find? (·.token = text)

/-- What stands at the start of every key that counts rejections. -/
def explanationStart : String :=
  "filtered because not"

/-- The key under which rejections by the criterion are counted. -/
def explanationKey (c : Criterion) : String :=
  s!"{explanationStart} ({c.name})"

/-- Charges one rejection to the criterion. -/
def charge (counts : KeyMap Nat) (c : Criterion) : KeyMap Nat :=
  counts.bump c.explanationKey

@[simp] theorem ofToken?_token (c : Criterion) : ofToken? c.token = some c := by
  cases c <;> decide

end Criterion

namespace Analysis

/-- Whether a line of code belongs to a pattern that does not leave variability as it is. A line
that cannot be classified does not. -/
def editsVariability (a : Analysis) (i : Nat) : StateM Memory Bool := do
  match ← (a.classify EditPattern.elementary i).run with
  | .ok found => return !found.pattern.isNeutral
  | .error _ => return false

def meets (a : Analysis) : Criterion → StateM Memory Bool
  | .notEmpty => return !a.tree.isEmpty
  | .moreThanOneArtifact => return 1 < a.tree.codeNodes.length
  | .consistent => return a.tree.firstFlaw?.isNone
  | .hasEditsToVariability => a.tree.codeNodes.anyM a.editsVariability

/-- The first criterion of a filter that the tree does not meet. -/
def rejection? (a : Analysis) : List Criterion → StateM Memory (Option Criterion)
  | [] => return none
  | c :: cs => do
    if ← a.meets c then rejection? a cs else return some c

/-- Tries a filter on the tree and charges the criterion that rejects it. -/
def test (a : Analysis) (filter : List Criterion) (counts : KeyMap Nat) :
    StateM Memory (Bool × KeyMap Nat) := do
  match ← a.rejection? filter with
  | none => return (true, counts)
  | some c => return (false, c.charge counts)

end Analysis

end Variability
