import Mathlib.Data.List.Nodup
import Mathlib.Logic.Relation
import Variability.Mining

/-!
Mining with many workers. Each batch waits until a worker takes it up, and the worker first looks
at the flag all of them share: where it is set, the batch is skipped. A worker that fails sets the
flag before its report leaves. Reports are on their way to the collector in any order, and the
collector concludes the run when every report has reached it. Workers, reports and the collector
go on one step at a time, in every order their stages allow.
-/

namespace Variability.Mining

/-- What comes of mining a batch: a result, an answer of the sink, or a fault. -/
abbrev Attempt := Except Fault (Except SinkError MiningResult)

def BatchReport.ofAttempt (batch : Batch) : Attempt → BatchReport
  | .error fault => .failed ⟨batch.id, .panicked fault.message⟩
  | .ok (.error e) => .failed ⟨batch.id, .sink e⟩
  | .ok (.ok result) => .done result

def BatchReport.isFailed : BatchReport → Bool
  | failed _ => true
  | done _ | skipped _ => false

def BatchReport.isDone : BatchReport → Bool
  | done _ => true
  | failed _ | skipped _ => false

theorem BatchReport.isFailed_iff {report : BatchReport} :
    report.isFailed = true ↔ ∃ failure, report = .failed failure := by
  cases report <;> simp [isFailed]

theorem BatchReport.isDone_iff {report : BatchReport} :
    report.isDone = true ↔ ∃ result, report = .done result := by
  cases report <;> simp [isDone]

/-- A report a batch can have: it is skipped, or what an attempt at it came to. -/
def BatchReport.Genuine (attempts : Batch → Attempt → Prop) (batch : Batch)
    (report : BatchReport) : Prop :=
  report = .skipped batch.id ∨ ∃ attempt, attempts batch attempt ∧ report = .ofAttempt batch attempt

theorem BatchReport.Genuine.attempt {attempts : Batch → Attempt → Prop} {batch : Batch}
    {result : MiningResult} (genuine : (BatchReport.done result).Genuine attempts batch) :
    attempts batch (.ok (.ok result)) := by
  obtain impossible | ⟨attempt, made, ended⟩ := genuine
  · cases impossible
  · rcases attempt with fault | e | r <;> cases ended
    exact made

theorem runBatch_eq {m : Type → Type} [Monad m] [LawfulMonad m] (config : Config)
    (history : History m) (clock : m Nat) (sink : Sink m) (batch : Batch) :
    runBatch config history clock sink batch =
      .ofAttempt batch <$> processBatch config history clock sink batch := by
  rw [runBatch, map_eq_pure_bind]
  congr 1
  funext attempt
  rcases attempt with fault | e | result <;> rfl

namespace MiningOutcome

def empty : MiningOutcome :=
  ⟨.empty, [], []⟩

/-- Takes one more report in. -/
def collect (o : MiningOutcome) : BatchReport → Except Fault MiningOutcome
  | .done result => (o.result.append result).map fun result => { o with result }
  | .failed failure => .ok { o with failures := o.failures ++ [failure] }
  | .skipped batch => .ok { o with skipped := o.skipped ++ [batch] }

def finish (wallMillis : Nat) (o : MiningOutcome) : MiningOutcome where
  result := { o.result with wallMillis }
  failures := o.failures.mergeSort fun f g => f.batch ≤ g.batch
  skipped := o.skipped.mergeSort (· ≤ ·)

/-- The totals that are handed to the sink. -/
def totals (o : MiningOutcome) : List MiningResult :=
  if o.isComplete then [o.result] else []

/-- How the run ends, given what the sink answers if the total is handed to it. -/
def settle (o : MiningOutcome) (answer : Except SinkError Unit) :
    Except MiningError MiningOutcome :=
  if o.isComplete then
    match answer with
    | .error e => .error (.sink e)
    | .ok () => .ok o
  else .ok o

theorem eq_of_settle_eq_ok {o o' : MiningOutcome} {answer : Except SinkError Unit}
    (settled : o.settle answer = .ok o') : o = o' := by
  rw [settle.eq_def] at settled
  split at settled
  · cases answer <;> cases settled
    rfl
  · exact Except.ok.inj settled

theorem foldlM_collect (reports : List BatchReport) (o : MiningOutcome) :
    reports.foldlM collect o =
      (o.result.appendAll (doneResults reports)).map fun result =>
        ⟨result, o.failures ++ failed reports, o.skipped ++ skippedIds reports⟩ := by
  induction reports generalizing o with
  | nil =>
      simp only [failed, skippedIds, List.filterMap_nil, List.append_nil]
      rfl
  | cons report reports ih =>
      rw [List.foldlM_cons]
      cases report with
      | done result =>
          change (o.collect (.done result)).bind _ =
            ((o.result.append result).bind fun r => r.appendAll (doneResults reports)).map _
          rw [collect]
          cases o.result.append result with
          | error fault => rfl
          | ok sum => exact ih _
      | failed failure =>
          change reports.foldlM collect _ = _
          rw [ih, List.append_assoc]
          rfl
      | skipped batch =>
          change reports.foldlM collect _ = _
          rw [ih, List.append_assoc]
          rfl

/-- Collecting from the start goes wrong with the sum of the results and nowhere else. -/
theorem foldlM_collect_empty (reports : List BatchReport) :
    reports.foldlM collect empty =
      (MiningResult.empty.appendAll (doneResults reports)).map fun result =>
        ⟨result, failed reports, skippedIds reports⟩ :=
  foldlM_collect reports empty

theorem foldlM_collect_eq_ok_iff {reports : List BatchReport} {o : MiningOutcome} :
    reports.foldlM collect empty = .ok o ↔
      MiningResult.empty.appendAll (doneResults reports) = .ok o.result ∧
        o.failures = failed reports ∧ o.skipped = skippedIds reports := by
  rw [foldlM_collect_empty]
  obtain ⟨result, failures, skipped⟩ := o
  cases MiningResult.empty.appendAll (doneResults reports) with
  | error fault => simp [Except.map]
  | ok total => simp [Except.map, eq_comm]

theorem foldlM_collect_eq_error_iff {reports : List BatchReport} {fault : Fault} :
    reports.foldlM collect empty = .error fault ↔
      MiningResult.empty.appendAll (doneResults reports) = .error fault := by
  rw [foldlM_collect_empty]
  cases MiningResult.empty.appendAll (doneResults reports) <;> simp [Except.map]

theorem ofReports_eq (wallMillis : Nat) (reports : List BatchReport) :
    ofReports wallMillis reports = (reports.foldlM collect empty).map (finish wallMillis) := by
  rw [foldlM_collect_empty, ofReports]
  cases MiningResult.empty.appendAll (doneResults reports) <;> rfl

theorem isComplete_finish (wallMillis : Nat) (o : MiningOutcome) :
    (o.finish wallMillis).isComplete = o.isComplete := by
  rw [Bool.eq_iff_iff]
  simp [isComplete, finish, List.isEmpty_iff, ← List.length_eq_zero_iff]

/-- An outcome is complete when every report in it is that of a batch that is done. -/
theorem isComplete_iff_of_foldlM {reports : List BatchReport} {o : MiningOutcome}
    (folded : reports.foldlM collect empty = .ok o) :
    o.isComplete = true ↔ ∀ report ∈ reports, report.isDone = true := by
  obtain ⟨-, failures, skipped⟩ := foldlM_collect_eq_ok_iff.mp folded
  rw [isComplete, failures, skipped]
  simp only [Bool.and_eq_true, List.isEmpty_iff, failed, skippedIds, List.filterMap_eq_nil_iff,
    ← forall_and]
  refine forall_congr' fun report => ?_
  cases report <;> simp [BatchReport.isDone]

theorem isComplete_iff {o : MiningOutcome} :
    o.isComplete = true ↔ o.failures = [] ∧ o.skipped = [] := by
  simp [isComplete]

end MiningOutcome

/-! The states a run goes through. -/

inductive Stage where
  | waiting
  | running
  | ended (report : BatchReport)
  | sent

structure Progress where
  /-- Of each batch, in their order. -/
  stages : List Stage
  /-- The flag of the workers. -/
  cancelled : Bool
  /-- Reports on their way, each with the position of its batch. -/
  inFlight : List (Nat × BatchReport)
  /-- Reports that the collector has taken in. -/
  taken : List (Nat × BatchReport)
  outcome : MiningOutcome
  /-- What was handed to the sink as the total. -/
  totals : List MiningResult
  verdict : Option (Except Fault (Except MiningError MiningOutcome))

namespace Progress

def initial (batches : List Batch) : Progress where
  stages := List.replicate batches.length .waiting
  cancelled := false
  inFlight := []
  taken := []
  outcome := .empty
  totals := []
  verdict := none

def put (s : Progress) (i : Nat) (stage : Stage) : Progress :=
  { s with stages := s.stages.set i stage }

/-- All reports that have left their workers. -/
def reported (s : Progress) : List (Nat × BatchReport) :=
  s.inFlight ++ s.taken

/-- A report exists, with its worker or behind it. -/
def Made (s : Progress) (i : Nat) (report : BatchReport) : Prop :=
  s.stages[i]? = some (.ended report) ∨ (i, report) ∈ s.reported

end Progress

inductive Step (batches : List Batch) (attempts : Batch → Attempt → Prop) :
    Progress → Progress → Prop where
  | skip {s : Progress} {i : Nat} {batch : Batch} (here : batches[i]? = some batch)
      (stage : s.stages[i]? = some .waiting) (flag : s.cancelled = true) :
      Step batches attempts s (s.put i (.ended (.skipped batch.id)))
  | start {s : Progress} {i : Nat} (stage : s.stages[i]? = some .waiting)
      (flag : s.cancelled = false) :
      Step batches attempts s (s.put i .running)
  | finish {s : Progress} {i : Nat} {batch : Batch} {attempt : Attempt}
      (here : batches[i]? = some batch) (stage : s.stages[i]? = some .running)
      (made : attempts batch attempt) :
      Step batches attempts s
        { s.put i (.ended (.ofAttempt batch attempt)) with
          cancelled := s.cancelled || (BatchReport.ofAttempt batch attempt).isFailed }
  | send {s : Progress} {i : Nat} {report : BatchReport}
      (stage : s.stages[i]? = some (.ended report)) :
      Step batches attempts s { s.put i .sent with inFlight := s.inFlight ++ [(i, report)] }
  | collect {s : Progress} {before after : List (Nat × BatchReport)} {entry : Nat × BatchReport}
      {outcome : MiningOutcome} (unsettled : s.verdict = none)
      (arrived : s.inFlight = before ++ entry :: after)
      (added : s.outcome.collect entry.2 = .ok outcome) :
      Step batches attempts s
        { s with inFlight := before ++ after, taken := s.taken ++ [entry], outcome }
  | overflow {s : Progress} {before after : List (Nat × BatchReport)} {entry : Nat × BatchReport}
      {fault : Fault} (unsettled : s.verdict = none)
      (arrived : s.inFlight = before ++ entry :: after)
      (wide : s.outcome.collect entry.2 = .error fault) :
      Step batches attempts s
        { s with
          inFlight := before ++ after
          taken := s.taken ++ [entry]
          verdict := some (.error fault) }
  | close {s : Progress} (unsettled : s.verdict = none)
      (sent : ∀ stage ∈ s.stages, stage = .sent) (drained : s.inFlight = []) (wallMillis : Nat)
      (answer : Except SinkError Unit) :
      Step batches attempts s
        { s with
          totals := (s.outcome.finish wallMillis).totals
          verdict := some (.ok ((s.outcome.finish wallMillis).settle answer)) }

theorem Step.mono {batches : List Batch} {attempts attempts' : Batch → Attempt → Prop}
    {s t : Progress} (step : Step batches attempts s t)
    (more : ∀ batch attempt, attempts batch attempt → attempts' batch attempt) :
    Step batches attempts' s t := by
  cases step with
  | skip here stage flag => exact .skip here stage flag
  | start stage flag => exact .start stage flag
  | finish here stage made => exact .finish here stage (more _ _ made)
  | send stage => exact .send stage
  | collect unsettled arrived added => exact .collect unsettled arrived added
  | overflow unsettled arrived wide => exact .overflow unsettled arrived wide
  | close unsettled sent drained wallMillis answer =>
      exact .close unsettled sent drained wallMillis answer

abbrev Steps (batches : List Batch) (attempts : Batch → Attempt → Prop) :
    Progress → Progress → Prop :=
  Relation.ReflTransGen (Step batches attempts)

end Variability.Mining
