import Variability.FileDiff
import Variability.Regex.Usable

/-!
Which commits and files are mined. Merges are left out unless they are allowed. A file has to have
an accepted kind of change and an accepted extension, where these are restricted at all; blocked
path patterns win over allowed ones.
-/

namespace Variability

/-- A regular expression that is set between the start and the end of a path. The expression
counts as text, so one with an open alternative reaches over the ends. -/
structure PathPattern where
  text : String
  regex : Regex
  deriving DecidableEq, Repr

structure PathPatternError where
  pattern : String
  error : Regex.Rejection
  deriving DecidableEq, Repr

namespace PathPattern

def anchored (text : List Char) : List Char :=
  "^(?:".toList ++ text ++ ")$".toList

def ofText (text : String) : Except PathPatternError PathPattern :=
  match Regex.ofText (anchored text.toList) with
  | .error error => .error ⟨text, error⟩
  | .ok regex => .ok ⟨text, regex⟩

def accepts (p : PathPattern) (path : String) : Bool :=
  p.regex.matchesIn path.toList

end PathPattern

def PathPatternError.message (e : PathPatternError) : String :=
  let anchored := PathPattern.anchored e.pattern.toList
  s!"invalid path pattern \"{e.pattern}\": {e.error.message anchored}"

structure CommitInfo where
  id : String
  parentCount : Nat
  deriving DecidableEq, Repr

structure DiffFilter where
  /-- Whether commits with several parents are mined. -/
  allowMerge : Bool
  /-- Accepted kinds of change; none means all. -/
  changes : List FileChange
  /-- Accepted file extensions in lower case and without a dot; none means all. -/
  extensions : List String
  /-- Patterns of which a path has to match one; none means that every path will do. -/
  allowedPaths : List PathPattern
  /-- Patterns of which a path must not match any. -/
  blockedPaths : List PathPattern
  deriving DecidableEq, Repr

namespace DiffFilter

def standard : DiffFilter :=
  ⟨false, [], [], [], []⟩

/-- Extensions of sources and headers of the languages that share the preprocessor. -/
def familyExtensions : List String :=
  ["c", "cpp", "h", "hpp", "cc", "cxx", "hxx"]

def inPlace : List FileChange :=
  [.added, .modified, .deleted]

/-- Accepts files with the usual extensions that were added, modified or deleted. -/
def family : DiffFilter :=
  { standard with changes := inPlace, extensions := familyExtensions }

/-- Accepts a further extension; leading dots and letter case do not matter. -/
def addExtension (f : DiffFilter) (extension : String) : DiffFilter :=
  let bare := (extension.toList.dropWhile (· = '.')).map Char.toLower
  { f with extensions := f.extensions ++ [String.ofList bare] }

def allowPath (f : DiffFilter) (text : String) : Except PathPatternError DiffFilter :=
  (PathPattern.ofText text).map fun p => { f with allowedPaths := f.allowedPaths ++ [p] }

def blockPath (f : DiffFilter) (text : String) : Except PathPatternError DiffFilter :=
  (PathPattern.ofText text).map fun p => { f with blockedPaths := f.blockedPaths ++ [p] }

def acceptsCommit (f : DiffFilter) (c : CommitInfo) : Bool :=
  f.allowMerge || c.parentCount ≤ 1

def extension? (path : List Char) : Option String :=
  let name := (path.reverse.takeWhile (· ≠ '/')).reverse
  (Text.cutLast? ['.'] name).map fun (_, extension) =>
    String.ofList (extension.map Char.toLower)

def acceptsExtension (f : DiffFilter) (path : String) : Bool :=
  f.extensions.isEmpty || (extension? path.toList).any f.extensions.contains

def acceptsPath (f : DiffFilter) (path : String) : Bool :=
  (f.allowedPaths.isEmpty || f.allowedPaths.any (·.accepts path)) &&
    !f.blockedPaths.any (·.accepts path)

def acceptsFile (f : DiffFilter) (d : FileDiff) : Bool :=
  (f.changes.isEmpty || f.changes.contains d.change) && f.acceptsExtension d.path &&
    f.acceptsPath d.path

end DiffFilter

end Variability
