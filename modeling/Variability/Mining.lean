import Variability.Mining.Batch
import Variability.Mining.CommitOutcome
import Variability.Text.Number

/-!
Mining a history. The history, the place where results go and the clock are capabilities in some
monad, and the run itself is the same in each. Commits of a batch are mined in order and written
together. A batch fails when it cannot be written or when a fault ends it; then the batches behind
it are skipped, and the total is written only if all batches are done.
-/

namespace Variability.Mining

/-- What a history says when it is asked for the diff of a commit. -/
inductive DiffAnswer where
  | files (files : List FileDiff)
  | unavailable (message : String)
  | crashed (message : String)

structure History (m : Type → Type) where
  commits : m (Except String (List CommitInfo))
  diff : CommitInfo → m DiffAnswer

structure SinkError where
  /-- What was being written. -/
  target : String
  message : String
  deriving DecidableEq, Repr

def SinkError.text (e : SinkError) : String :=
  s!"cannot write {e.target}: {e.message}"

structure Sink (m : Type → Type) where
  writeBatch : (id lineGraph : String) → MiningResult → m (Except SinkError Unit)
  writeTotal : MiningResult → m (Except SinkError Unit)

inductive WorkerError where
  | sink (error : SinkError)
  | panicked (message : String)
  deriving DecidableEq, Repr

def WorkerError.message : WorkerError → String
  | sink error => error.text
  | panicked message => s!"worker panicked: {message}"

structure WorkerFailure where
  batch : String
  error : WorkerError
  deriving DecidableEq, Repr

inductive MiningError where
  | listCommits (message : String)
  | invalidConfig (message : String)
  | sink (error : SinkError)
  deriving DecidableEq, Repr

def MiningError.message : MiningError → String
  | listCommits message => s!"cannot list commits: {message}"
  | invalidConfig message => s!"invalid configuration: {message}"
  | sink error => error.text

def partition (commits : List CommitInfo) (size : Nat) : Except MiningError (List Batch) :=
  match batches? commits size with
  | none => .error (.invalidConfig "batch size must be positive")
  | some batches => .ok batches

section Run

variable {m : Type → Type} [Monad m] (config : Config) (history : History m) (clock : m Nat)

/-- The milliseconds between two readings of a clock, as a 64-bit word. -/
def elapsed (start stop : Nat) : Nat :=
  min (stop - start) (Text.wordLimit - 1)

/-- Mines a commit. The history is asked for its diff only if the filter accepts the commit. -/
def processCommit (commit : CommitInfo) : m (Except Fault CommitOutcome) := do
  let start ← clock
  if !config.filter.acceptsCommit commit then
    return .ok .filtered
  else
    match ← history.diff commit with
    | .unavailable message => return CommitOutcome.unavailable commit.id message
    | .crashed message => return .error (.crashed message)
    | .files files =>
      match CommitDiff.build commit.id files config.filter with
      | .error fault => return .error fault
      | .ok d =>
        let stop ← clock
        return .ok (.ofDiff config (elapsed start stop) d)

/-- Mines commits one after the other, behind what came before them. -/
def processCommits (result : MiningResult) (lineGraph : String) :
    List CommitInfo → m (Except Fault (MiningResult × String))
  | [] => return .ok (result, lineGraph)
  | commit :: commits => do
    match ← processCommit config history clock commit with
    | .error fault => return .error fault
    | .ok outcome =>
      match result.append outcome.result with
      | .error fault => return .error fault
      | .ok result => processCommits result (lineGraph ++ outcome.lineGraph) commits

variable (sink : Sink m)

def processBatch (batch : Batch) : m (Except Fault (Except SinkError MiningResult)) := do
  match ← processCommits config history clock .empty "" batch.commits with
  | .error fault => return .error fault
  | .ok (result, lineGraph) =>
    match ← sink.writeBatch batch.id lineGraph result with
    | .error e => return .ok (.error e)
    | .ok () => return .ok (.ok result)

inductive BatchReport where
  | done (result : MiningResult)
  | failed (failure : WorkerFailure)
  | skipped (batch : String)

def runBatch (batch : Batch) : m BatchReport := do
  match ← processBatch config history clock sink batch with
  | .error fault => return .failed ⟨batch.id, .panicked fault.message⟩
  | .ok (.error e) => return .failed ⟨batch.id, .sink e⟩
  | .ok (.ok result) => return .done result

def runBatches : List Batch → m (List BatchReport)
  | [] => return []
  | batch :: batches => do
    match ← runBatch config history clock sink batch with
    | .failed failure => return .failed failure :: batches.map fun b => .skipped b.id
    | report => return report :: (← runBatches batches)

structure MiningOutcome where
  /-- All batches that are done, taken together. -/
  result : MiningResult
  /-- The failed batches in the order of their ids. -/
  failures : List WorkerFailure
  /-- The skipped batches in the order of their ids. -/
  skipped : List String

namespace MiningOutcome

def isComplete (o : MiningOutcome) : Bool :=
  o.failures.isEmpty && o.skipped.isEmpty

def doneResults (reports : List BatchReport) : List MiningResult :=
  reports.filterMap fun
    | .done result => some result
    | .failed _ | .skipped _ => none

def failed (reports : List BatchReport) : List WorkerFailure :=
  reports.filterMap fun
    | .failed failure => some failure
    | .done _ | .skipped _ => none

def skippedIds (reports : List BatchReport) : List String :=
  reports.filterMap fun
    | .skipped batch => some batch
    | .done _ | .failed _ => none

/-- Takes the reports of a run that took `wallMillis` milliseconds together. -/
def ofReports (wallMillis : Nat) (reports : List BatchReport) : Except Fault MiningOutcome :=
  (MiningResult.empty.appendAll (doneResults reports)).map fun result =>
    { result := { result with wallMillis }
      failures := (failed reports).mergeSort fun f g => f.batch ≤ g.batch
      skipped := (skippedIds reports).mergeSort (· ≤ ·) }

end MiningOutcome

def mine : m (Except Fault (Except MiningError MiningOutcome)) := do
  let start ← clock
  match ← history.commits with
  | .error message => return .ok (.error (.listCommits message))
  | .ok commits =>
    match partition commits config.batchSize with
    | .error e => return .ok (.error e)
    | .ok batches =>
      let reports ← runBatches config history clock sink batches
      let stop ← clock
      match MiningOutcome.ofReports (elapsed start stop) reports with
      | .error fault => return .error fault
      | .ok outcome =>
        if outcome.isComplete then
          match ← sink.writeTotal outcome.result with
          | .error e => return .ok (.error (.sink e))
          | .ok () => return .ok (.ok outcome)
        else return .ok (.ok outcome)

end Run

end Variability.Mining
