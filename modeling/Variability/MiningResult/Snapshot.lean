import Variability.Criterion
import Variability.MiningResult
import Variability.Text.Cut

/-!
Snapshots: results as text. A snapshot has a line with a key and a value for every entry of a
result, in a fixed order. Reading one puts the entries into an empty result, so a later line wins
over an earlier one with the same key, and blank lines count for nothing.
-/

namespace Variability

inductive SnapshotError where
  | malformed (line : Nat)
  | unknownKey (line : Nat) (key : String)
  | invalidValue (line : Nat) (value : String)
  deriving DecidableEq, Repr

def SnapshotError.message : SnapshotError → String
  | malformed line => s!"line {line}: expected \"key: value\""
  | unknownKey line key => s!"line {line}: unknown key \"{key}\""
  | invalidValue line value => s!"line {line}: invalid value \"{value}\""

namespace MiningResult

inductive Counter where
  | totalCommits
  | exportedCommits
  | emptyCommits
  | failedCommits
  | filteredCommits
  | totalPatches
  | exportedTrees
  | runtimeMillis
  | wallMillis
  deriving DecidableEq, Repr

namespace Counter

def all : List Counter :=
  [totalCommits, exportedCommits, emptyCommits, failedCommits, filteredCommits, totalPatches,
    exportedTrees, runtimeMillis, wallMillis]

def key : Counter → String
  | totalCommits => "commits"
  | exportedCommits => "exported commits"
  | emptyCommits => "empty commits"
  | failedCommits => "failed commits"
  | filteredCommits => "filtered commits"
  | totalPatches => "patches"
  | exportedTrees => "exported trees"
  | runtimeMillis => "runtime in ms"
  | wallMillis => "runtime with multithreading in ms"

def get (r : MiningResult) : Counter → Nat
  | totalCommits => r.totalCommits
  | exportedCommits => r.exportedCommits
  | emptyCommits => r.emptyCommits
  | failedCommits => r.failedCommits
  | filteredCommits => r.filteredCommits
  | totalPatches => r.totalPatches
  | exportedTrees => r.exportedTrees
  | runtimeMillis => r.runtimeMillis
  | wallMillis => r.wallMillis

def set (r : MiningResult) (n : Nat) : Counter → MiningResult
  | totalCommits => { r with totalCommits := n }
  | exportedCommits => { r with exportedCommits := n }
  | emptyCommits => { r with emptyCommits := n }
  | failedCommits => { r with failedCommits := n }
  | filteredCommits => { r with filteredCommits := n }
  | totalPatches => { r with totalPatches := n }
  | exportedTrees => { r with exportedTrees := n }
  | runtimeMillis => { r with runtimeMillis := n }
  | wallMillis => { r with wallMillis := n }

@[simp] theorem get_set (r : MiningResult) (n : Nat) (c : Counter) : c.get (c.set r n) = n := by
  cases c <;> rfl

end Counter

inductive Key where
  | counter (counter : Counter)
  | fastest
  | slowest
  | nodes (edit : String)
  | pattern (name : String)
  | filterHit (key : String)
  | diffError (kind : String)
  | failure (commit : String)
  deriving DecidableEq, Repr

namespace Key

def nodesStart : String := "exported nodes "

def patternStart : String := "pattern "

def errorStart : String := "parse error "

def failureStart : String := "failure "

def fastestKey : String := "fastest commit"

def slowestKey : String := "slowest commit"

def text : Key → String
  | counter c => c.key
  | fastest => fastestKey
  | slowest => slowestKey
  | nodes edit => nodesStart ++ edit
  | pattern name => patternStart ++ name
  | filterHit key => key
  | diffError kind => errorStart ++ kind
  | failure commit => failureStart ++ commit

def rest? (start : String) (key : List Char) : Option String :=
  (Text.after? start.toList key).map String.ofList

def fixed? (key : String) : Option Key :=
  match Counter.all.find? (·.key = key) with
  | some c => some (counter c)
  | none =>
    if key = fastestKey then some fastest else if key = slowestKey then some slowest else none

def read? (key : List Char) : Option Key :=
  fixed? (String.ofList key) <|> (rest? nodesStart key).map nodes <|>
    (rest? patternStart key).map pattern <|>
    (rest? Criterion.explanationStart key).map (fun _ => filterHit (String.ofList key)) <|>
    (rest? errorStart key).map diffError <|> (rest? failureStart key).map failure

end Key

namespace Snapshot

def line (key : Key) (value : List Char) : List Char :=
  key.text.toList ++ ": ".toList ++ value

def counterLine (r : MiningResult) (c : Counter) : List Char :=
  line (.counter c) (Text.decimal (c.get r))

def printTime (t : CommitTime) : List Char :=
  t.commit.toList ++ " (".toList ++ Text.decimal t.millis ++ " ms)".toList

def printPattern (c : PatternCount) : List Char :=
  Text.decimal c.occurrences ++ " in ".toList ++ Text.decimal c.commits ++ " commits".toList

def mapLines {α : Type} (key : String → Key) (print : α → List Char) (m : KeyMap α) :
    List (List Char) :=
  m.entries.map fun (name, value) => line (key name) (print value)

def lines (r : MiningResult) : List (List Char) :=
  (Counter.all.take 7).map (counterLine r) ++ mapLines .nodes Text.decimal r.exportedNodes ++
    (r.fastest.map fun t => line .fastest (printTime t)).toList ++
    (r.slowest.map fun t => line .slowest (printTime t)).toList ++
    (Counter.all.drop 7).map (counterLine r) ++ mapLines .pattern printPattern r.patternCounts ++
    mapLines .filterHit Text.decimal r.filterHits ++
    mapLines .diffError Text.decimal r.diffErrors ++ mapLines .failure String.toList r.failures

end Snapshot

def toSnapshot (r : MiningResult) : String :=
  String.ofList (Text.unlines (Snapshot.lines r))

namespace Snapshot

def readNumber (n : Nat) (value : List Char) : Except SnapshotError Nat :=
  match Text.readDecimal? (Text.trim value) with
  | none => .error (.invalidValue n (String.ofList value))
  | some number => .ok number

/-- Reads a commit and its time, which stands in the last parentheses. -/
def readTime (n : Nat) (value : List Char) : Except SnapshotError CommitTime :=
  let found := do
    let (commit, rest) ← Text.cutLast? " (".toList value
    let millis ← Text.readDecimal? (← Text.before? " ms)".toList rest)
    return ⟨String.ofList commit, millis⟩
  match found with
  | none => .error (.invalidValue n (String.ofList value))
  | some time => .ok time

def readPattern (n : Nat) (value : List Char) : Except SnapshotError PatternCount :=
  let parts := do
    let (occurrences, rest) ← Text.cut? " in ".toList value
    return (occurrences, ← Text.before? " commits".toList rest)
  match parts with
  | none => .error (.invalidValue n (String.ofList value))
  | some (occurrences, commits) => do
    return ⟨← readNumber n occurrences, ← readNumber n commits⟩

def readEntry (r : MiningResult) (n : Nat) (key : Key) (value : List Char) :
    Except SnapshotError MiningResult := do
  match key with
  | .counter c => return c.set r (← readNumber n value)
  | .fastest => return { r with fastest := some (← readTime n value) }
  | .slowest => return { r with slowest := some (← readTime n value) }
  | .nodes edit =>
    return { r with exportedNodes := r.exportedNodes.insert edit (← readNumber n value) }
  | .pattern name =>
    return { r with patternCounts := r.patternCounts.insert name (← readPattern n value) }
  | .filterHit key =>
    return { r with filterHits := r.filterHits.insert key (← readNumber n value) }
  | .diffError kind =>
    return { r with diffErrors := r.diffErrors.insert kind (← readNumber n value) }
  | .failure commit =>
    return { r with failures := r.failures.insert commit (String.ofList value) }

def readLine (r : MiningResult) (n : Nat) (text : List Char) :
    Except SnapshotError MiningResult :=
  if text.all Text.isBlank then .ok r
  else
    match Text.cut? ": ".toList text with
    | none => .error (.malformed n)
    | some (key, value) =>
      match Key.read? key with
      | none => .error (.unknownKey n (String.ofList key))
      | some key => readEntry r n key (Text.trimEnd value)

end Snapshot

def ofSnapshot (text : String) : Except SnapshotError MiningResult :=
  ((Text.lines text.toList).zipIdx 1).foldlM (fun r (line, n) => Snapshot.readLine r n line) empty

end MiningResult

end Variability
