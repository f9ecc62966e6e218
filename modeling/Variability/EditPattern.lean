import Variability.Analysis

/-!
Elementary edit patterns. Each line of code is classified by what the edit did to its presence:
code that was added or removed, alone or together with its branch, and code that was kept while
its presence condition became stronger, weaker, different or was only rewritten. A catalog is a
list of patterns; a line belongs to the first that accepts it.
-/

namespace Variability

inductive EditPattern where
  /-- Code added to a branch that was there. -/
  | addToPC
  /-- Code added together with its branch. -/
  | addWithMapping
  /-- Code removed from a branch that stays. -/
  | remFromPC
  /-- Code removed together with its branch. -/
  | remWithMapping
  /-- Kept code whose condition became strictly stronger. -/
  | specialization
  /-- Kept code whose condition became strictly weaker. -/
  | generalization
  /-- Kept code whose two conditions are incomparable. -/
  | reconfiguration
  /-- Kept code that was moved under an equivalent condition. -/
  | refactoring
  /-- Kept code, whatever happened to it. -/
  | untouched
  deriving DecidableEq, Repr

namespace EditPattern

def name : EditPattern → String
  | addToPC => "AddToPC"
  | addWithMapping => "AddWithMapping"
  | remFromPC => "RemFromPC"
  | remWithMapping => "RemWithMapping"
  | specialization => "Specialization"
  | generalization => "Generalization"
  | reconfiguration => "Reconfiguration"
  | refactoring => "Refactoring"
  | untouched => "Untouched"

/-- All patterns, in the order in which a line is tried against them. -/
def elementary : List EditPattern :=
  [addToPC, addWithMapping, remFromPC, remWithMapping, specialization, generalization,
    reconfiguration, refactoring, untouched]

def ofName? (text : String) : Option EditPattern :=
  elementary.find? (·.name = text)

/-- The edit of the lines that a pattern is about. -/
def edit : EditPattern → Edit
  | addToPC | addWithMapping => .added
  | remFromPC | remWithMapping => .removed
  | specialization | generalization | reconfiguration | refactoring | untouched => .kept

/-- The sides whose presence conditions tell which features a match affects. -/
def scope : EditPattern → List Side
  | addToPC | addWithMapping => [.after]
  | remFromPC | remWithMapping => [.before]
  | specialization | generalization | reconfiguration | refactoring => [.before, .after]
  | untouched => []

/-- Patterns that leave variability as it is. -/
def isNeutral : EditPattern → Bool
  | addToPC | remFromPC | untouched => true
  | addWithMapping | remWithMapping | specialization | generalization | reconfiguration
  | refactoring => false

/-- Whether a kept node whose conditions relate as given is an instance of a pattern. -/
def acceptsRelation (p : EditPattern) (r : Relation) (unmoved : Bool) : Bool :=
  match p with
  | specialization => r.afterImpliesBefore && !r.beforeImpliesAfter
  | generalization => r.beforeImpliesAfter && !r.afterImpliesBefore
  | reconfiguration => !r.beforeImpliesAfter && !r.afterImpliesBefore
  | refactoring => r.beforeImpliesAfter && r.afterImpliesBefore && !unmoved
  | addToPC | addWithMapping | remFromPC | remWithMapping | untouched => false

end EditPattern

/-- The features that a match affects: the conditions in scope and the features they name. -/
structure FeatureContext where
  before : Option Formula
  after : Option Formula
  literals : List String
  deriving DecidableEq, Repr

structure PatternMatch where
  pattern : EditPattern
  nodeId : Nat
  features : Option FeatureContext
  deriving DecidableEq, Repr

namespace Analysis

/-- The edit of the branch that a node is in. -/
def parentEdit (a : Analysis) (s : Side) (i : Nat) : Option Edit :=
  (a.tree.parent s i).map fun p => (a.tree.node p).edit

/-- Whether a pattern accepts a line of code. -/
def accepts (a : Analysis) (p : EditPattern) (i : Nat) : Query MatchError Bool :=
  if (a.tree.node i).edit ≠ p.edit then return false
  else
    match p with
    | .addToPC => return a.parentEdit .after i ≠ some .added
    | .addWithMapping => return a.parentEdit .after i = some .added
    | .remFromPC => return a.parentEdit .before i ≠ some .removed
    | .remWithMapping => return a.parentEdit .before i = some .removed
    | .untouched => return true
    | .specialization | .generalization | .reconfiguration | .refactoring =>
      return p.acceptsRelation (← a.relation i) (a.tree.unmoved i)

/-- The condition of a node on a side that is in scope. -/
def scopedCondition (a : Analysis) (scope : List Side) (s : Side) (i : Nat) :
    Query MatchError (Option Formula) :=
  if s ∈ scope then (some <$> a.presence s i).adapt .presence else return none

def scopedFeatures (a : Analysis) (scope : List Side) (i : Nat) :
    Query MatchError (Option FeatureContext) :=
  if scope.isEmpty then return none
  else do
    let before ← a.scopedCondition scope .before i
    let after ← a.scopedCondition scope .after i
    return some ⟨before, after, Formula.featuresOf (before.toList ++ after.toList)⟩

def features (a : Analysis) (p : EditPattern) (i : Nat) :
    Query MatchError (Option FeatureContext) :=
  a.scopedFeatures p.scope i

/-- The first pattern of a catalog that accepts a node. -/
def firstMatch (a : Analysis) (i : Nat) : List EditPattern → Query MatchError PatternMatch
  | [] => throw (.noMatch (a.tree.node i).id)
  | p :: ps => do
    if ← a.accepts p i then
      return ⟨p, (a.tree.node i).id, ← a.features p i⟩
    else
      firstMatch a i ps

/-- Classifies a line of code. -/
def classify (a : Analysis) (catalog : List EditPattern) (i : Nat) :
    Query MatchError PatternMatch :=
  if (a.tree.node i).kind ≠ .code then throw (.notAnArtifact (a.tree.node i).id)
  else a.firstMatch i catalog

/-- Classifies every line of code in order, up to the first that cannot be. -/
def classifyAll (a : Analysis) (catalog : List EditPattern) :
    Query MatchError (List PatternMatch) :=
  a.tree.codeNodes.mapM (a.classify catalog)

end Analysis

end Variability
