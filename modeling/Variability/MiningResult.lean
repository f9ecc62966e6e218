import Variability.Edit
import Variability.Fault
import Variability.KeyMap
import Variability.Text.Blank
import Variability.Text.Lines
import Variability.Text.Number

/-!
Statistics of mined commits. Events of a commit are recorded one by one. Results of parts of a
history are put together by `merge`: counts are added, of two messages under one commit the smaller
stays, and the fastest and the slowest commit are extremes of one order. Every count of a total is a
64-bit word; `append` is the merge of results whose counts stay words.
-/

namespace Variability

structure CommitTime where
  commit : String
  millis : Nat
  deriving DecidableEq, Repr

namespace CommitTime

/-- Shorter times come first; of equal times, that of the smaller commit id. -/
def precedes (s t : CommitTime) : Bool :=
  s.millis < t.millis || (s.millis = t.millis && s.commit < t.commit)

def earlier (s t : CommitTime) : CommitTime :=
  if t.precedes s then t else s

def later (s t : CommitTime) : CommitTime :=
  if s.precedes t then t else s

end CommitTime

structure PatternCount where
  occurrences : Nat
  commits : Nat
  deriving DecidableEq, Repr

def PatternCount.add (c d : PatternCount) : PatternCount :=
  ⟨c.occurrences + d.occurrences, c.commits + d.commits⟩

def smallerMessage (m n : String) : String :=
  if n < m then n else m

structure MiningResult where
  totalCommits : Nat
  /-- Commits with an exported tree. -/
  exportedCommits : Nat
  /-- Commits without one. -/
  emptyCommits : Nat
  /-- Commits whose diff could not be had. -/
  failedCommits : Nat
  /-- Commits that the filter rejects. -/
  filteredCommits : Nat
  /-- Accepted files, whether or not they could be parsed. -/
  totalPatches : Nat
  exportedTrees : Nat
  /-- Exported nodes by their edit. -/
  exportedNodes : KeyMap Nat
  patternCounts : KeyMap PatternCount
  /-- Rejected trees by the criterion they do not meet. -/
  filterHits : KeyMap Nat
  /-- Files that could not be mined, by the kind of error. -/
  diffErrors : KeyMap Nat
  /-- What went wrong with failed commits. -/
  failures : KeyMap String
  fastest : Option CommitTime
  slowest : Option CommitTime
  /-- Time spent on commits. -/
  runtimeMillis : Nat
  /-- Time from the start to the end of the run. -/
  wallMillis : Nat
  deriving DecidableEq

namespace MiningResult

def empty : MiningResult where
  totalCommits := 0
  exportedCommits := 0
  emptyCommits := 0
  failedCommits := 0
  filteredCommits := 0
  totalPatches := 0
  exportedTrees := 0
  exportedNodes := .empty
  patternCounts := .empty
  filterHits := .empty
  diffErrors := .empty
  failures := .empty
  fastest := none
  slowest := none
  runtimeMillis := 0
  wallMillis := 0

instance : Inhabited MiningResult :=
  ⟨empty⟩

def merge (r s : MiningResult) : MiningResult where
  totalCommits := r.totalCommits + s.totalCommits
  exportedCommits := r.exportedCommits + s.exportedCommits
  emptyCommits := r.emptyCommits + s.emptyCommits
  failedCommits := r.failedCommits + s.failedCommits
  filteredCommits := r.filteredCommits + s.filteredCommits
  totalPatches := r.totalPatches + s.totalPatches
  exportedTrees := r.exportedTrees + s.exportedTrees
  exportedNodes := r.exportedNodes.add s.exportedNodes
  patternCounts := r.patternCounts.mergeWith PatternCount.add s.patternCounts
  filterHits := r.filterHits.add s.filterHits
  diffErrors := r.diffErrors.add s.diffErrors
  failures := r.failures.mergeWith smallerMessage s.failures
  fastest := r.fastest.merge CommitTime.earlier s.fastest
  slowest := r.slowest.merge CommitTime.later s.slowest
  runtimeMillis := r.runtimeMillis + s.runtimeMillis
  wallMillis := r.wallMillis + s.wallMillis

def counts (r : MiningResult) : List Nat :=
  [r.totalCommits, r.exportedCommits, r.emptyCommits, r.failedCommits, r.filteredCommits,
    r.totalPatches, r.exportedTrees, r.runtimeMillis, r.wallMillis] ++ r.exportedNodes.values ++
    r.patternCounts.values.flatMap (fun c => [c.occurrences, c.commits]) ++
    r.filterHits.values ++ r.diffErrors.values

def Fits (r : MiningResult) : Prop :=
  ∀ n ∈ r.counts, n < Text.wordLimit

instance (r : MiningResult) : Decidable r.Fits :=
  inferInstanceAs (Decidable (∀ n ∈ r.counts, n < Text.wordLimit))

/-- A result as a total, unless one of its counts is no word. -/
def total? (r : MiningResult) : Except Fault MiningResult :=
  if r.Fits then .ok r else .error .overflow

/-- Where an overflow is possible, a result stands for its total. -/
instance : Coe MiningResult (Except Fault MiningResult) :=
  ⟨total?⟩

def append (r s : MiningResult) : Except Fault MiningResult :=
  ↑(r.merge s)

def appendAll (r : MiningResult) (rs : List MiningResult) : Except Fault MiningResult :=
  rs.foldlM append r

def recordTime (r : MiningResult) (commit : String) (millis : Nat) : MiningResult :=
  let time : CommitTime := ⟨commit, millis⟩
  { r with
    fastest := r.fastest.merge CommitTime.earlier (some time)
    slowest := r.slowest.merge CommitTime.later (some time)
    runtimeMillis := r.runtimeMillis + millis }

def recordNode (r : MiningResult) (edit : Edit) : MiningResult :=
  { r with exportedNodes := r.exportedNodes.bump edit.token }

/-- Counts the matches of one commit by pattern; a pattern counts for the commit if it occurs. -/
def recordPatterns (r : MiningResult) (occurrences : KeyMap Nat) : MiningResult :=
  let counted := occurrences.filterMap fun n => if n = 0 then none else some ⟨n, 1⟩
  { r with patternCounts := r.patternCounts.mergeWith PatternCount.add counted }

def recordFilterHits (r : MiningResult) (hits : KeyMap Nat) : MiningResult :=
  { r with filterHits := r.filterHits.add hits }

def recordDiffError (r : MiningResult) (kind : String) : MiningResult :=
  { r with diffErrors := r.diffErrors.bump kind }

/-- A message on one line: its lines without the blanks around them, with a blank between. -/
def singleLine (message : String) : String :=
  let lines := (Text.lines message.toList).map Text.trim
  String.ofList ([' '].intercalate lines)

/-- Counts a failed commit; its message takes the place of an earlier one. -/
def recordFailure (r : MiningResult) (commit message : String) : Except Fault MiningResult :=
  (r.append { empty with failedCommits := 1 }).map fun r =>
    { r with failures := r.failures.insert commit (singleLine message) }

@[simp] theorem counts_empty : empty.counts = List.replicate 9 0 := rfl

end MiningResult

end Variability
