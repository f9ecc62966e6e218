import Variability.Tree

/-!
Moved `else` branches: an edit that is seen on a directive, not on a line of code. An `else` was
removed and another added in the same scope, so that lines changed branch without being edited.
-/

namespace Variability

/-- An occurrence of a pattern on directives: the directive it hangs on and the lines it spans. -/
structure SemanticMatch where
  pattern : String
  nodeId : Nat
  lines : LineSpan
  deriving DecidableEq, Repr

namespace Tree

/-- The `else` branch that was removed from a scope, the first if there are several. -/
def removedElse? (t : Tree) (scope : Nat) : Option Nat :=
  (t.children .before scope).find? fun c =>
    (t.node c).kind = .elseBranch && (t.node c).edit = .removed

/-- Whether a node is an `if` or `elif` branch of a scope on either side. -/
def isBranchOf (t : Tree) (scope i : Nat) : Bool :=
  (t.node i).kind.hasGuard && Side.all.any fun s => (t.children s scope).contains i

/-- Whether a child that a branch has on one side belongs, on the other, to an `if` or `elif`
branch of the scope. -/
def exchanges (t : Tree) (s : Side) (scope branch : Nat) : Bool :=
  (t.children s branch).any fun c => (t.parent s.other c).any (t.isBranchOf scope)

/-- The match that hangs on an added `else`: one was removed from its scope, and a line moved
between one of the two and another branch there. -/
def movedElse? (t : Tree) (i : Nat) : Option SemanticMatch := do
  let added := t.node i
  guard (added.kind = .elseBranch && added.edit = .added)
  let scope ← added.parent .after
  let r ← t.removedElse? scope
  guard (t.exchanges .after scope i || t.exchanges .before scope r)
  let removed := t.node r
  return {
    pattern := "MoveElse"
    nodeId := added.id
    lines :=
      ⟨min added.lines.first removed.lines.first, max added.lines.last removed.lines.last⟩ }

def movedElses (t : Tree) : List SemanticMatch :=
  (List.range t.size).filterMap t.movedElse?

end Tree

end Variability
