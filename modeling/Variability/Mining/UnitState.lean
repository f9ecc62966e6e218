/-!
How far a file of a commit gets. A file that is exported has passed through all states before it;
a file can be rejected or fail on the way, and then goes no further.
-/

namespace Variability.Mining

inductive UnitState where
  | pending
  | parsed
  | filtered
  | classified
  | exported
  | rejected
  | failed
  deriving DecidableEq, Repr

namespace UnitState

def all : List UnitState :=
  [pending, parsed, filtered, classified, exported, rejected, failed]

def name : UnitState → String
  | pending => "Pending"
  | parsed => "Parsed"
  | filtered => "Filtered"
  | classified => "Classified"
  | exported => "Exported"
  | rejected => "Rejected"
  | failed => "Failed"

/-- The state after a success; states in which nothing more happens stay. -/
def advance : UnitState → UnitState
  | pending => parsed
  | parsed => filtered
  | filtered => classified
  | classified => exported
  | exported => exported
  | rejected => rejected
  | failed => failed

def isTerminal : UnitState → Bool
  | exported | rejected | failed => true
  | pending | parsed | filtered | classified => false

end UnitState

end Variability.Mining
