import Variability.Edit
import Variability.HunkRange
import Variability.Text.Lines

/-!
The files of a diff. A diff of several files is cut where a file starts: at a `diff --git` line
or, in diffs without such lines, at a pair of lines `---` and `+++`. Hunk bodies are measured by
their headers, so a line of a body stays in its file whatever it looks like. Binary files are
dropped.
-/

namespace Variability

open Text (after? startsWith)

inductive FileChange where
  | added
  | modified
  | deleted
  | renamed
  | copied
  deriving DecidableEq, Repr

namespace FileChange

def all : List FileChange :=
  [added, modified, deleted, renamed, copied]

def token : FileChange → String
  | added => "add"
  | modified => "modify"
  | deleted => "delete"
  | renamed => "rename"
  | copied => "copy"

def ofToken? (text : String) : Option FileChange :=
  all.find? (·.token = text)

@[simp] theorem ofToken?_token (c : FileChange) : ofToken? c.token = some c := by
  cases c <;> decide

end FileChange

structure FileDiff where
  /-- The path before the change; an added file has none. -/
  oldPath : Option String
  /-- The path after the change; a deleted file has none. -/
  newPath : Option String
  change : FileChange
  /-- The hunks, from the first header on. -/
  patch : String
  deriving DecidableEq, Repr

namespace FileDiff

def path (d : FileDiff) : String :=
  (d.newPath <|> d.oldPath).getD ""

def stripSide (path : List Char) : List Char :=
  (after? "a/".toList path <|> after? "b/".toList path).getD path

/-- The path that a `---` or `+++` line names; a tab ends it. The null device is no path. -/
def namedPath (text : List Char) : Option String :=
  let path := Text.trimEnd (text.takeWhile (· ≠ '\t'))
  if path = "/dev/null".toList then none else some (String.ofList (stripSide path))

/-- A file that is being read; the lines of its patch stand in reverse order. -/
structure Draft where
  oldPath : Option String
  newPath : Option String
  change : Option FileChange
  binary : Bool
  body : List (List Char)

namespace Draft

def blank : Draft :=
  ⟨none, none, none, false, []⟩

def gitMark : List Char :=
  "diff --git ".toList

/-- The file that a line starts, with the paths of a `diff --git` line. -/
def ofLine (line : List Char) : Draft :=
  match (after? gitMark line).bind (Text.cut? " b/".toList) with
  | none => blank
  | some (old, new) =>
    { blank with
      oldPath := some (String.ofList (stripSide old))
      newPath := some (String.ofList new) }

/-- Header lines that begin with one of these set the change, and the path of a side if they name
one. -/
def moves : List (String × FileChange × Option Side) :=
  [("new file mode", .added, none),
    ("deleted file mode", .deleted, none),
    ("rename from ", .renamed, some .before),
    ("rename to ", .renamed, some .after),
    ("copy from ", .copied, some .before),
    ("copy to ", .copied, some .after)]

def setPath (d : Draft) (s : Side) (path : Option String) : Draft :=
  match s with
  | .before => { d with oldPath := path }
  | .after => { d with newPath := path }

/-- What the first of `moves` that fits a line makes of a file. -/
def move? (d : Draft) (line : List Char) : Option Draft :=
  moves.findSome? fun (head, change, side?) =>
    (after? head.toList line).map fun path =>
      let d := { d with change := some change }
      side?.elim d fun s => d.setPath s (some (String.ofList path))

def addHeader (d : Draft) (line : List Char) : Draft :=
  match d.move? line with
  | some d => d
  | none =>
    match after? "--- ".toList line with
    | some path => d.setPath .before (namedPath path)
    | none =>
      match after? "+++ ".toList line with
      | some path => d.setPath .after (namedPath path)
      | none =>
        if startsWith "Binary files ".toList line || startsWith "GIT binary patch".toList line
        then { d with binary := true }
        else d

def addLine (d : Draft) (line : List Char) : Draft :=
  { d with body := line :: d.body }

/-- The change of a file whose header lines do not tell it. -/
def changeOfPaths : Option String → Option String → FileChange
  | none, some _ => .added
  | some _, none => .deleted
  | _, _ => .modified

/-- The file, unless it is binary or nothing is known about its path. -/
def finish? (d : Draft) : Option FileDiff :=
  if d.binary || (d.oldPath.isNone && d.newPath.isNone) then none
  else
    some
      { oldPath := d.oldPath
        newPath := d.newPath
        change := d.change.getD (changeOfPaths d.oldPath d.newPath)
        patch := String.ofList (Text.unlines d.body.reverse) }

end Draft

/-- The lines of a hunk body that are still to come, on each side. -/
structure Remaining where
  old : Nat
  new : Nat
  deriving DecidableEq, Repr

namespace Remaining

def zero : Remaining :=
  ⟨0, 0⟩

def next (r : Remaining) : List Char → Remaining
  | '+' :: _ => { r with new := r.new - 1 }
  | '-' :: _ => { r with old := r.old - 1 }
  | '\\' :: _ => r
  | _ => ⟨r.old - 1, r.new - 1⟩

end Remaining

/-- Whether a file starts at the first line. A pair of `---` and `+++` starts one only outside a
file or behind the hunks of one. -/
def startsFile (current : Option Draft) (line : List Char) (rest : List (List Char)) : Bool :=
  startsWith Draft.gitMark line ||
    (startsWith "--- ".toList line && rest.head?.any (startsWith "+++ ".toList) &&
      current.all fun d => !d.body.isEmpty)

def start (line : List Char) : Draft :=
  if startsWith Draft.gitMark line then .ofLine line else Draft.blank.addHeader line

def finishAll (current : Option Draft) : List FileDiff :=
  (current.bind Draft.finish?).toList

/-- Cuts lines into files; a file that is being read and what remains of its hunk are carried
along. -/
def splitLines (current : Option Draft) (remaining : Remaining) :
    List (List Char) → List FileDiff
  | [] => finishAll current
  | line :: rest =>
    if remaining ≠ .zero then
      splitLines (current.map (·.addLine line)) (remaining.next line) rest
    else if startsFile current line rest then
      finishAll current ++ splitLines (some (start line)) .zero rest
    else
      match current with
      | none => splitLines none .zero rest
      | some d =>
        if startsWith ['@', '@'] line then
          let remaining :=
            (HunkRange.ofHeader? line).elim .zero fun r => ⟨r.oldLength, r.newLength⟩
          splitLines (some (d.addLine line)) remaining rest
        else if d.body.isEmpty then splitLines (some (d.addHeader line)) .zero rest
        else if startsWith ['\\'] line then splitLines (some (d.addLine line)) .zero rest
        else splitLines (some d) .zero rest

def split (diff : String) : List FileDiff :=
  splitLines none .zero (Text.lines diff.toList)

end FileDiff

end Variability
