/-!
The kinds of nodes in a variation tree: the root, the four conditional directives, and lines of
code. Only the root and the branches of a conditional own other nodes.
-/

namespace Variability

inductive NodeKind where
  | root
  | ifBranch
  | elifBranch
  | elseBranch
  | endif
  | code
  deriving DecidableEq, Repr

namespace NodeKind

def all : List NodeKind :=
  [root, ifBranch, elifBranch, elseBranch, endif, code]

/-- The token that stands for the kind in line graphs and messages. -/
def token : NodeKind → String
  | root => "ROOT"
  | ifBranch => "IF"
  | elifBranch => "ELIF"
  | elseBranch => "ELSE"
  | endif => "ENDIF"
  | code => "CODE"

def ofToken? (text : String) : Option NodeKind :=
  all.find? (·.token = text)

/-- Kinds that may own children. -/
def isScope : NodeKind → Bool
  | root | ifBranch | elifBranch | elseBranch => true
  | endif | code => false

/-- Kinds that carry a guard. -/
def hasGuard : NodeKind → Bool
  | ifBranch | elifBranch => true
  | root | elseBranch | endif | code => false

def isDirective : NodeKind → Bool
  | ifBranch | elifBranch | elseBranch | endif => true
  | root | code => false

@[simp] theorem ofToken?_token (k : NodeKind) : ofToken? k.token = some k := by
  cases k <;> decide

end NodeKind

end Variability
