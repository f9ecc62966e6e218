import Variability.Proofs.Mining.Schedule

/-!
Mining one batch after the other is one of the runs of many workers: each batch goes through all
its stages before the next, and the reports are taken in when all of them are there.
-/

namespace Variability.Mining

variable {batches : List Batch} {attempts : Batch → Attempt → Prop}

namespace Progress

/-- One batch in the middle: those before it are through, those after it wait, and nothing was
collected yet. -/
def midway (before : Nat) (stage : Stage) (after : Nat) (flag : Bool)
    (entries : List (Nat × BatchReport)) : Progress :=
  { initial [] with
    stages := List.replicate before .sent ++ stage :: List.replicate after .waiting
    cancelled := flag
    inFlight := entries }

def between (before after : Nat) (flag : Bool) (entries : List (Nat × BatchReport)) : Progress :=
  { initial [] with
    stages := List.replicate before .sent ++ List.replicate after .waiting
    cancelled := flag
    inFlight := entries }

variable {before after : Nat} {stage : Stage} {flag : Bool} {entries : List (Nat × BatchReport)}

theorem midway_sent : midway before .sent after flag entries =
    between (before + 1) after flag entries := by
  rw [midway, between, List.replicate_succ', List.append_assoc]
  rfl

theorem stage_midway : (midway before stage after flag entries).stages[before]? = some stage := by
  simp [midway]

theorem put_midway (new : Stage) : (midway before stage after flag entries).put before new =
    midway before new after flag entries := by
  rw [put, midway, List.set_append_right _ _ (by simp)]
  simp [midway]

end Progress

open Progress (midway between)

variable {before after : Nat} {flag : Bool} {entries : List (Nat × BatchReport)} {batch : Batch}

theorem step_send_midway {report : BatchReport} :
    Step batches attempts (midway before (.ended report) after flag entries)
      (between (before + 1) after flag (entries ++ [(before, report)])) := by
  have sent : Step batches attempts (midway before (.ended report) after flag entries)
      { (midway before (.ended report) after flag entries).put before .sent with
        inFlight := entries ++ [(before, report)] } := .send Progress.stage_midway
  rw [Progress.put_midway] at sent
  rwa [← Progress.midway_sent]

theorem steps_skip (here : batches[before]? = some batch) :
    Steps batches attempts (between before (after + 1) true entries)
      (between (before + 1) after true (entries ++ [(before, .skipped batch.id)])) := by
  have skipped : Step batches attempts (midway before .waiting after true entries)
      ((midway before .waiting after true entries).put before (.ended (.skipped batch.id))) :=
    .skip here Progress.stage_midway rfl
  rw [Progress.put_midway] at skipped
  exact .tail (.single skipped) step_send_midway

theorem step_start_midway : Step batches attempts (between before (after + 1) false entries)
    (midway before .running after false entries) := by
  have started : Step batches attempts (midway before .waiting after false entries)
      ((midway before .waiting after false entries).put before .running) :=
    .start Progress.stage_midway rfl
  rwa [Progress.put_midway] at started

theorem step_finish_midway (here : batches[before]? = some batch) {attempt : Attempt}
    (made : attempts batch attempt) :
    Step batches attempts (midway before .running after false entries)
      (midway before (.ended (.ofAttempt batch attempt)) after
        (BatchReport.ofAttempt batch attempt).isFailed entries) := by
  have finished : Step batches attempts (midway before .running after false entries)
      { (midway before .running after false entries).put before
          (.ended (.ofAttempt batch attempt)) with
        cancelled := false || (BatchReport.ofAttempt batch attempt).isFailed } :=
    .finish here Progress.stage_midway made
  rwa [Progress.put_midway] at finished

theorem steps_attempt (here : batches[before]? = some batch) {attempt : Attempt}
    (made : attempts batch attempt) :
    Steps batches attempts (between before (after + 1) false entries)
      (between (before + 1) after (BatchReport.ofAttempt batch attempt).isFailed
        (entries ++ [(before, .ofAttempt batch attempt)])) :=
  .tail (.tail (.single step_start_midway) (step_finish_midway here made)) step_send_midway

theorem steps_skip_all (done rest : List Batch) (whole : batches = done ++ rest)
    (entries : List (Nat × BatchReport)) :
    ∃ more : List (Nat × BatchReport), more.map Prod.snd = rest.map (fun b => .skipped b.id) ∧
      Steps batches attempts (between done.length rest.length true entries)
        (between batches.length 0 true (entries ++ more)) := by
  induction rest generalizing done entries with
  | nil =>
      rw [List.append_nil] at whole
      subst whole
      refine ⟨[], rfl, ?_⟩
      rw [List.append_nil]
      exact .refl
  | cons batch rest ih =>
      have here : batches[done.length]? = some batch := by simp [whole]
      obtain ⟨more, reports, steps⟩ := ih (done ++ [batch]) (by simp [whole])
        (entries ++ [(done.length, .skipped batch.id)])
      refine ⟨(done.length, .skipped batch.id) :: more, by simp [reports], ?_⟩
      rw [List.length_append, List.append_assoc] at steps
      exact (steps_skip here).trans steps

/-! The batches of a run in a state monad. -/

section State

variable {W : Type} (config : Config) (history : History (StateM W)) (clock : StateM W Nat)
  (sink : Sink (StateM W))

/-- Whatever comes of a batch in some state of the world. -/
def Attempts (batch : Batch) (attempt : Attempt) : Prop :=
  ∃ w, ((processBatch config history clock sink batch).run w).1 = attempt

theorem run_bind {α β : Type} (x : StateM W α) (f : α → StateM W β) (w : W) :
    (x >>= f).run w = (f (x.run w).1).run (x.run w).2 := rfl

theorem run_runBatch (batch : Batch) (w : W) :
    (runBatch config history clock sink batch).run w =
      (.ofAttempt batch ((processBatch config history clock sink batch).run w).1,
        ((processBatch config history clock sink batch).run w).2) := by
  rw [runBatch_eq]
  rfl

/-- A failure skips the rest, and any other report lets the next batch come. -/
theorem run_runBatches_cons (batch : Batch) (rest : List Batch) (w : W) {report : BatchReport}
    {after : W} (made : (runBatch config history clock sink batch).run w = (report, after)) :
    ((runBatches config history clock sink (batch :: rest)).run w).1 =
      if report.isFailed then report :: rest.map fun b => .skipped b.id
      else report :: ((runBatches config history clock sink rest).run after).1 := by
  rw [runBatches, run_bind, made]
  cases report <;> rfl

theorem steps_runBatches (done rest : List Batch) (whole : batches = done ++ rest)
    (entries : List (Nat × BatchReport)) (w : W) :
    ∃ flag, ∃ more : List (Nat × BatchReport),
      more.map Prod.snd = ((runBatches config history clock sink rest).run w).1 ∧
        Steps batches (Attempts config history clock sink)
          (between done.length rest.length false entries)
          (between batches.length 0 flag (entries ++ more)) := by
  induction rest generalizing done entries w with
  | nil =>
      rw [List.append_nil] at whole
      subst whole
      refine ⟨false, [], rfl, ?_⟩
      rw [List.append_nil]
      exact .refl
  | cons batch rest ih =>
      have here : batches[done.length]? = some batch := by simp [whole]
      have wholeNow : batches = done ++ [batch] ++ rest := by simp [whole]
      rw [run_runBatches_cons config history clock sink batch rest w (run_runBatch ..)]
      generalize attempted : ((processBatch config history clock sink batch).run w).1 = attempt
      have first : Steps batches (Attempts config history clock sink)
          (between done.length (rest.length + 1) false entries)
          (between (done.length + 1) rest.length (BatchReport.ofAttempt batch attempt).isFailed
            (entries ++ [(done.length, .ofAttempt batch attempt)])) :=
        steps_attempt here ⟨w, attempted⟩
      cases failed : (BatchReport.ofAttempt batch attempt).isFailed with
      | true =>
          obtain ⟨more, reports, steps⟩ := steps_skip_all (done ++ [batch]) rest wholeNow
            (entries ++ [(done.length, .ofAttempt batch attempt)])
          refine ⟨true, (done.length, .ofAttempt batch attempt) :: more, by simp [reports], ?_⟩
          rw [List.length_append, List.append_assoc] at steps
          rw [failed] at first
          exact first.trans steps
      | false =>
          obtain ⟨flag, more, reports, steps⟩ := ih (done ++ [batch]) wholeNow
            (entries ++ [(done.length, .ofAttempt batch attempt)])
            ((processBatch config history clock sink batch).run w).2
          refine ⟨flag, (done.length, .ofAttempt batch attempt) :: more, by simp [reports], ?_⟩
          rw [List.length_append, List.append_assoc] at steps
          rw [failed] at first
          exact first.trans steps

end State

/-! Taking in the reports in their order. -/

theorem exists_steps_collect (entries : List (Nat × BatchReport)) {s : Progress}
    (unsettled : s.verdict = none) (arrived : s.inFlight = entries) :
    ∃ t, Steps batches attempts s t ∧
      match (entries.map Prod.snd).foldlM MiningOutcome.collect s.outcome with
      | .ok outcome => t = { s with inFlight := [], taken := s.taken ++ entries, outcome }
      | .error fault => t.verdict = some (.error fault) := by
  induction entries generalizing s with
  | nil =>
      refine ⟨s, .refl, ?_⟩
      cases s
      cases arrived
      simp [pure, Except.pure]
  | cons entry entries ih =>
      have first : s.inFlight = [] ++ entry :: entries := arrived
      rw [List.map_cons, List.foldlM_cons]
      cases added : s.outcome.collect entry.2 with
      | error fault => exact ⟨_, .single (.overflow unsettled first added), rfl⟩
      | ok outcome =>
          obtain ⟨t, steps, ending⟩ := ih
            (s := { s with inFlight := [] ++ entries, taken := s.taken ++ [entry], outcome })
            unsettled rfl
          rw [List.append_assoc] at ending
          exact ⟨t, .head (.collect unsettled first added) steps, ending⟩

theorem steps_collect {entries : List (Nat × BatchReport)} {s : Progress} {o : MiningOutcome}
    (unsettled : s.verdict = none) (arrived : s.inFlight = entries)
    (collected : (entries.map Prod.snd).foldlM MiningOutcome.collect s.outcome = .ok o) :
    Steps batches attempts s
      { s with inFlight := [], taken := s.taken ++ entries, outcome := o } := by
  obtain ⟨t, steps, ending⟩ := exists_steps_collect entries unsettled arrived
  rw [collected] at ending
  exact ending ▸ steps

/-- From all reports on their way to any ending they can have. -/
theorem steps_ofReports (batches : List Batch) (attempts : Batch → Attempt → Prop)
    (entries : List (Nat × BatchReport)) (flag : Bool) (wallMillis : Nat)
    (answer : MiningOutcome → Except SinkError Unit) :
    ∃ t, Steps batches attempts (between batches.length 0 flag entries) t ∧
      t.verdict = some ((MiningOutcome.ofReports wallMillis (entries.map Prod.snd)).map fun o =>
        o.settle (answer o)) := by
  have arrived : (between batches.length 0 flag entries).inFlight = entries := rfl
  rw [MiningOutcome.ofReports_eq]
  cases folded : (entries.map Prod.snd).foldlM MiningOutcome.collect .empty with
  | error fault =>
      obtain ⟨s, steps, ending⟩ := exists_steps_collect entries rfl arrived
      rw [show (between batches.length 0 flag entries).outcome = .empty from rfl, folded] at ending
      exact ⟨s, steps, ending⟩
  | ok outcome =>
      let collected : Progress :=
        { between batches.length 0 flag entries with inFlight := [], taken := entries, outcome }
      have steps : Steps batches attempts (between batches.length 0 flag entries) collected :=
        steps_collect rfl arrived folded
      have sent : ∀ stage ∈ collected.stages, stage = .sent := by simp [collected, between]
      have closed := steps.tail
        (.close rfl sent rfl wallMillis (answer (outcome.finish wallMillis)))
      exact ⟨_, closed, rfl⟩

/-! The whole run. -/

section Whole

variable {m : Type → Type} [Monad m] (config : Config) (history : History m) (clock : m Nat)
  (sink : Sink m)

/-- What is left to do when all reports are there. -/
def conclude (start : Nat) (reports : List BatchReport) :
    m (Except Fault (Except MiningError MiningOutcome)) := do
  let stop ← clock
  match MiningOutcome.ofReports (elapsed start stop) reports with
  | .error fault => return .error fault
  | .ok outcome =>
    if outcome.isComplete then
      match ← sink.writeTotal outcome.result with
      | .error e => return .ok (.error (.sink e))
      | .ok () => return .ok (.ok outcome)
    else return .ok (.ok outcome)

/-- The run behind the list of commits. -/
def mineListed (start : Nat) : Except String (List CommitInfo) →
    m (Except Fault (Except MiningError MiningOutcome))
  | .error message => return .ok (.error (.listCommits message))
  | .ok commits =>
    match partition commits config.batchSize with
    | .error e => return .ok (.error e)
    | .ok batches => do
      conclude clock sink start (← runBatches config history clock sink batches)

theorem mine_eq : mine config history clock sink =
    clock >>= fun start => history.commits >>= mineListed config history clock sink start := rfl

end Whole

section State

variable {W : Type} (config : Config) (history : History (StateM W)) (clock : StateM W Nat)
  (sink : Sink (StateM W)) (w : W)

theorem run_conclude (start : Nat) (reports : List BatchReport) :
    ((conclude clock sink start reports).run w).1 =
      (MiningOutcome.ofReports (elapsed start (clock.run w).1) reports).map fun o =>
        o.settle ((sink.writeTotal o.result).run (clock.run w).2).1 := by
  rw [conclude, run_bind]
  cases MiningOutcome.ofReports (elapsed start (clock.run w).1) reports with
  | error fault => rfl
  | ok outcome =>
      cases complete : outcome.isComplete with
      | true =>
          simp only [complete, if_true]
          rw [run_bind]
          simp only [Except.map, MiningOutcome.settle, complete, if_true]
          cases ((sink.writeTotal outcome.result).run (clock.run w).2).1 <;> rfl
      | false =>
          simp only [Except.map, MiningOutcome.settle, complete, Bool.false_eq_true, if_false]
          rfl

/-- A run of one batch after the other ends before it begins, or as some run of workers ends. -/
theorem steps_mine :
    (∃ message, (history.commits.run (clock.run w).2).1 = .error message ∧
        ((mine config history clock sink).run w).1 = .ok (.error (.listCommits message))) ∨
      ∃ commits, (history.commits.run (clock.run w).2).1 = .ok commits ∧
        ((∃ e, partition commits config.batchSize = .error e ∧
            ((mine config history clock sink).run w).1 = .ok (.error e)) ∨
          ∃ batches t, partition commits config.batchSize = .ok batches ∧
            Steps batches (Attempts config history clock sink) (.initial batches) t ∧
            t.verdict = some ((mine config history clock sink).run w).1) := by
  rw [mine_eq, run_bind, run_bind]
  cases (history.commits.run (clock.run w).2).1 with
  | error message => exact .inl ⟨message, rfl, rfl⟩
  | ok commits =>
      refine .inr ⟨commits, rfl, ?_⟩
      cases cut : partition commits config.batchSize with
      | error e =>
          refine .inl ⟨e, rfl, ?_⟩
          simp only [mineListed, cut]
          rfl
      | ok batches =>
          obtain ⟨flag, more, reports, mined⟩ := steps_runBatches config history clock sink []
            batches rfl [] (history.commits.run (clock.run w).2).2
          simp only [mineListed, cut]
          rw [run_bind, run_conclude, ← reports]
          generalize ((runBatches config history clock sink batches).run _).2 = w'
          obtain ⟨t, collected, verdict⟩ := steps_ofReports batches
            (Attempts config history clock sink) more flag
            (elapsed (clock.run w).1 (clock.run w').1)
            fun o => ((sink.writeTotal o.result).run (clock.run w').2).1
          exact .inr ⟨batches, t, rfl, mined.trans collected, verdict⟩

end State

end Variability.Mining
