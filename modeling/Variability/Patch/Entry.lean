import Variability.Directive
import Variability.Fault
import Variability.Tree.Flaw
import Variability.Text.Lines

/-!
The entries of a patch: its lines of code and its directives. Reading a patch of one file sorts
out hunk headers, file headers and markers, and joins a directive with the lines that continue it.
It goes on until the lines end or something stops it, so what stopped it always stands behind the
entries read so far.
-/

namespace Variability.Patch

open Text (startsWith)

/-- Why a patch is no edit of a file with conditionals. Lines count from 1. -/
inductive PatchError where
  | unmatchedEndif (line : Nat) (side : Side)
  | unmatchedBranch (line : Nat) (side : Side) (kind : NodeKind)
  | branchAfterElse (line : Nat) (side : Side)
  | unclosedConditional (line : Nat) (side : Side)
  | mixedContinuation (line : Nat)
  | malformedCondition (line : Nat) (error : GuardError)
  | inconsistent (flaw : Flaw)
  deriving DecidableEq, Repr

namespace PatchError

/-- The short name under which errors are counted. -/
def kind : PatchError → String
  | unmatchedEndif .. => "unmatched_endif"
  | unmatchedBranch .. => "unmatched_branch"
  | branchAfterElse .. => "branch_after_else"
  | unclosedConditional .. => "unclosed_conditional"
  | mixedContinuation .. => "mixed_continuation"
  | malformedCondition .. => "malformed_condition"
  | inconsistent .. => "inconsistent"

def message : PatchError → String
  | unmatchedEndif line side =>
    s!"line {line}: #endif without open conditional {side.name} the edit"
  | unmatchedBranch line side kind =>
    s!"line {line}: {kind.token} without open conditional {side.name} the edit"
  | branchAfterElse line side => s!"line {line}: branch follows #else {side.name} the edit"
  | unclosedConditional line side =>
    s!"line {line}: conditional is never closed {side.name} the edit"
  | mixedContinuation line => s!"line {line}: continued directive changes diff type"
  | malformedCondition line error => s!"line {line}: {error.message}"
  | inconsistent flaw => s!"inconsistent tree: {flaw.message}"

end PatchError

/-- A line of code or a directive, with the edit and the lines it comes from. -/
structure Entry where
  edit : Edit
  lines : LineSpan
  kind : NodeKind
  label : String
  guard : Option Formula
  deriving DecidableEq, Repr

def Entry.ofText (edit : Edit) (lines : LineSpan) (text : List Char) :
    Except GuardError Entry :=
  (Directive.ofLine text).map fun
    | none => ⟨edit, lines, .code, String.ofList text, none⟩
    | some ⟨kind, none⟩ => ⟨edit, lines, kind, "", none⟩
    | some ⟨kind, some guard⟩ => ⟨edit, lines, kind, guard.label, some guard.formula⟩

/-- What ends the reading of a patch before its last line. -/
inductive Stop where
  | rejected (error : PatchError)
  | faulted (fault : Fault)
  deriving DecidableEq, Repr

/-- The entries of a patch, and the range of its hunks unless reading was stopped. -/
structure Reading where
  entries : List Entry
  ending : Except Stop (Option HunkRange)

namespace Reading

def stop (s : Stop) : Reading :=
  ⟨[], .error s⟩

def done (hunk : Option HunkRange) : Reading :=
  ⟨[], .ok hunk⟩

def cons (e : Entry) (r : Reading) : Reading :=
  ⟨e :: r.entries, r.ending⟩

end Reading

/-- Starts of the lines that describe a file before its first hunk. -/
def fileHeaders : List String :=
  ["diff ", "index ", "--- ", "+++ ", "new file mode", "deleted file mode", "old mode",
    "new mode", "similarity index", "dissimilarity index", "rename from", "rename to",
    "copy from", "copy to"]

def isFileHeader (line : List Char) : Bool :=
  fileHeaders.any fun head => startsWith head.toList line

/-- The edit that a line announces, and the line without its marker. -/
def splitMarker : List Char → Edit × List Char
  | [] => (.kept, [])
  | marker :: text => (.ofMarker marker, text)

/-- The part before the backslash that continues a directive on the next line. -/
def continued? (text : List Char) : Option (List Char) :=
  Text.before? ['\\'] (Text.trimEnd text)

/-- A line, or a directive with the lines that continued it so far. -/
structure Piece where
  edit : Edit
  lines : LineSpan
  text : List Char

/-- The range of all hunks once one more is known; there is none when it leaves the words. -/
def widen? : Option HunkRange → HunkRange → Option HunkRange
  | none, range => some range
  | some hunk, range => hunk.cover? range

/-- Reads the lines from number `n` on. The range of the hunks so far and a directive that asks
for one more line are carried along. -/
def read (hunk : Option HunkRange) (n : Nat) :
    (open? : Option Piece) → List (List Char) → Reading
  | none, [] => .done hunk
  | some piece, [] =>
    match Entry.ofText piece.edit piece.lines piece.text with
    | .error e => .stop (.rejected (.malformedCondition piece.lines.first e))
    | .ok entry => .cons entry (.done hunk)
  | none, line :: rest =>
    if startsWith ['@', '@'] line then
      match HunkRange.ofHeader? line with
      | none => read hunk (n + 1) none rest
      | some range =>
        match widen? hunk range with
        | none => .stop (.faulted .overflow)
        | some hunk => read (some hunk) (n + 1) none rest
    else if startsWith ['\\'] line then read hunk (n + 1) none rest
    else if hunk.isNone && isFileHeader line then read hunk (n + 1) none rest
    else
      let (edit, text) := splitMarker line
      if Directive.isDirective text && (continued? text).isSome then
        read hunk (n + 1) (some ⟨edit, ⟨n, n⟩, text⟩) rest
      else
        match Entry.ofText edit ⟨n, n⟩ text with
        | .error e => .stop (.rejected (.malformedCondition n e))
        | .ok entry => .cons entry (read hunk (n + 1) none rest)
  | some piece, line :: rest =>
    let (edit, more) := splitMarker line
    if edit ≠ piece.edit then .stop (.rejected (.mixedContinuation n))
    else
      let text := (continued? piece.text).getD piece.text ++ ' ' :: Text.trimStart more
      let lines : LineSpan := ⟨piece.lines.first, n⟩
      if (continued? text).isSome then read hunk (n + 1) (some ⟨edit, lines, text⟩) rest
      else
        match Entry.ofText edit lines text with
        | .error e => .stop (.rejected (.malformedCondition lines.first e))
        | .ok entry => .cons entry (read hunk (n + 1) none rest)

/-- Reads all lines of a patch. -/
def readLines (lines : List (List Char)) : Reading :=
  read none 1 none lines

end Variability.Patch
