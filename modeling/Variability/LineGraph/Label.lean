import Variability.Guard
import Variability.Tree

/-!
The labels of a line graph. A node label names the edit and the kind of its node and, in the
labeled format, its text; a tree label names the path, the commit and the hunks that the tree
comes from. The guard of a branch is not written: it is read off the branch's text again.
-/

namespace Variability

namespace LineGraph

open Text (fields)

inductive NodeFormat where
  /-- Edit, kind and text. -/
  | labeled
  /-- Edit and kind alone. -/
  | typeOnly
  deriving DecidableEq, Repr

inductive LabelError where
  | unknownEdit (text : String)
  | unknownKind (text : String)
  | malformedGuard (error : GuardError)
  deriving DecidableEq, Repr

def LabelError.message : LabelError → String
  | unknownEdit text => s!"unknown diff type \"{text}\""
  | unknownKind text => s!"unknown code type \"{text}\""
  | malformedGuard error => error.message

namespace NodeFormat

def name : NodeFormat → String
  | labeled => "labeled"
  | typeOnly => "type"

def types (n : Node) : List Char :=
  n.edit.token.toList ++ '_' :: n.kind.token.toList

def print (format : NodeFormat) (n : Node) : List Char :=
  match format with
  | typeOnly => types n
  | labeled => if n.label.isEmpty then types n else types n ++ '_' :: n.label.toList

def readTypes (edit kind : List Char) : Except LabelError (Edit × NodeKind) :=
  match Edit.ofToken? (String.ofList edit) with
  | none => .error (.unknownEdit (String.ofList edit))
  | some e =>
    match NodeKind.ofToken? (String.ofList kind) with
    | none => .error (.unknownKind (String.ofList kind))
    | some k => .ok (e, k)

/-- The guard of a branch, read off its text; there is none without text or on other nodes. -/
def readGuard (kind : NodeKind) (text : List Char) : Except LabelError (Option Formula) :=
  if kind.hasGuard && !text.isEmpty then
    match Guard.parse text with
    | .error e => .error (.malformedGuard e)
    | .ok guard => .ok (some guard.formula)
  else .ok none

def read (format : NodeFormat) (id : Nat) (label : List Char) : Except LabelError Node :=
  let parts := fields ['_'] 2 label
  match readTypes (parts[0]?.getD []) (parts[1]?.getD []) with
  | .error e => .error e
  | .ok (edit, kind) =>
    match format with
    | typeOnly => .ok (.fresh id kind edit "")
    | labeled =>
      let text := parts[2]?.getD []
      match readGuard kind text with
      | .error e => .error e
      | .ok guard => .ok { Node.fresh id kind edit (String.ofList text) with guard }

end NodeFormat

def sourceMark : List Char :=
  "$$$".toList

def printSource (source : Source) : List Char :=
  source.path.toList ++ sourceMark ++ source.commit.toList ++
    source.hunk.elim [] fun range => sourceMark ++ range.print

/-- Every text is a tree label; parts that are missing or cannot be read are left out. -/
def readSource (label : List Char) : Source :=
  let parts := fields sourceMark 2 label
  { path := String.ofList (parts[0]?.getD [])
    commit := String.ofList (parts[1]?.getD [])
    hunk := parts[2]?.bind HunkRange.read? }

end LineGraph

end Variability
