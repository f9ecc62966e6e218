import Variability.Fault
import Variability.Patch.Entry
import Variability.Tree.Flaw

/-!
From a patch to a tree. Every side keeps a stack of its open branches. An entry becomes a node
under the innermost open branch of each side on which it exists: a branch then opens, an `endif`
stands last in the branch that it closes, and a further branch of a conditional closes the one
before, so the branches of a conditional are siblings.
-/

namespace Variability.Patch

/-- A tree under construction; the open branches of each side, innermost first. -/
structure Nesting where
  tree : Tree
  before : List Nat
  after : List Nat

namespace Nesting

def start (source : Source) : Nesting :=
  ⟨.singleton source, [], []⟩

def branches (s : Nesting) : Side → List Nat
  | .before => s.before
  | .after => s.after

def setBranches (s : Nesting) (side : Side) (branches : List Nat) : Nesting :=
  match side with
  | .before => { s with before := branches }
  | .after => { s with after := branches }

/-- The node under which the next entry goes: the innermost open branch, or the root. -/
def top (s : Nesting) (side : Side) : Nat :=
  (s.branches side).headD 0

def openBranch (s : Nesting) (side : Side) (i : Nat) : Nesting :=
  s.setBranches side (i :: s.branches side)

def closeBranch (s : Nesting) (side : Side) : Nesting :=
  s.setBranches side (s.branches side).tail

/-- Closes the branch that a further branch of the same conditional follows. -/
def endBranch (e : Entry) (s : Nesting) (side : Side) : Except PatchError Nesting :=
  match (s.tree.node (s.top side)).kind with
  | .ifBranch | .elifBranch => .ok (s.closeBranch side)
  | .elseBranch => .error (.branchAfterElse e.lines.first side)
  | .root | .endif | .code => .error (.unmatchedBranch e.lines.first side e.kind)

/-- Refuses an `endif` where no branch is open. -/
def expectBranch (e : Entry) (s : Nesting) (side : Side) : Except PatchError Nesting :=
  if (s.branches side).isEmpty then .error (.unmatchedEndif e.lines.first side) else .ok s

/-- What has to happen to the open branches before an entry gets its place. -/
def prepare (e : Entry) (s : Nesting) : Except PatchError Nesting :=
  match e.kind with
  | .elifBranch | .elseBranch => e.edit.sides.foldlM (endBranch e) s
  | .endif => e.edit.sides.foldlM (expectBranch e) s
  | .root | .ifBranch | .code => .ok s

def attach (i : Nat) (s : Nesting) (side : Side) : Except PatchError Nesting :=
  match s.tree.link side (s.top side) i with
  | .error flaw => .error (.inconsistent flaw)
  | .ok tree => .ok { s with tree }

/-- What an entry does to the open branches once it has its place. -/
def settle (e : Entry) (i : Nat) (s : Nesting) : Nesting :=
  match e.kind with
  | .endif => e.edit.sides.foldl closeBranch s
  | .code => s
  | .root | .ifBranch | .elifBranch | .elseBranch =>
    e.edit.sides.foldl (fun s side => s.openBranch side i) s

def node (e : Entry) (id : Nat) : Node :=
  { Node.fresh id e.kind e.edit e.label with guard := e.guard, lines := e.lines }

/-- Adds the node of an entry. -/
def place (s : Nesting) (e : Entry) : Except PatchError Nesting := do
  let s ← s.prepare e
  let i := s.tree.size
  let s ← e.edit.sides.foldlM (attach i) { s with tree := s.tree.push (node e i) }
  return s.settle e i

/-- The tree, when nothing is open any more and it is well formed. -/
def finish (s : Nesting) (hunk : Option HunkRange) : Except PatchError Tree :=
  match Side.all.find? fun side => !(s.branches side).isEmpty with
  | some side => .error (.unclosedConditional (s.tree.node (s.top side)).lines.first side)
  | none =>
    let tree := { s.tree with source := { s.tree.source with hunk } }
    match tree.firstFlaw? with
    | some flaw => .error (.inconsistent flaw)
    | none => .ok tree

end Nesting

/-- The tree of a reading. What stopped the reading counts only if the entries before it have
their place. -/
def Reading.toTree (r : Reading) (source : Source) : Except Fault (Except PatchError Tree) :=
  match r.entries.foldlM Nesting.place (.start source) with
  | .error e => .ok (.error e)
  | .ok s =>
    match r.ending with
    | .error (.rejected e) => .ok (.error e)
    | .error (.faulted fault) => .error fault
    | .ok hunk => .ok (s.finish hunk)

/-- Parses the patch of one file. -/
def parse (text : String) (path commit : String) : Except Fault (Except PatchError Tree) :=
  (readLines (Text.lines text.toList)).toTree ⟨path, commit, none⟩

end Variability.Patch
