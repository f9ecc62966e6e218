import Variability.Proofs.CommandLine.Site
import Variability.Proofs.Mining.Bookkeeping

/-!
What the file of the total says of a run. It is written last and only if every batch is done, so
that it marks a whole run for the next one; but a batch that is named like the total has its own
metadata in that file, and then it marks nothing.
-/

namespace Variability.CommandLine

open Mining Script

variable {config : Config} {limit : Nat} {patches output : String} {batches : List Batch}
  {s : Site}

/-! Ends of runs. -/

/-- Every batch is done. -/
def Site.AllDone (batches : List Batch) (s : Site) : Prop :=
  ∀ i < batches.length, ∃ result, s.progress.Made i (.done result)

theorem Tidy.holdsBatch (tidy : Tidy config limit patches output batches s)
    {i : Nat} {batch : Batch} {result : MiningResult} (here : batches[i]? = some batch)
    (made : s.progress.Made i (.done result))
    (unnamed : batch.id ≠ totalId ∨ s.progress.totals = []) :
    ∃ text, MinedFrom config limit patches batch text result ∧
      HoldsBatch output batch.id text result s.files :=
  tidy.secured i batch _ here (tidy.reached i result made) unnamed s.files (fun _ _ => rfl) result
    rfl

theorem allDone_of_handed
    (orderly : Orderly batches (fun _ _ => True) s.progress) (handed : s.progress.totals ≠ []) :
    s.AllDone batches := by
  obtain ⟨value, verdict⟩ := orderly.totals.2 handed
  obtain ⟨wallMillis, answer, outcome, settled⟩ := orderly.settled value verdict
  intro i inside
  obtain ⟨⟨j, report⟩, member, rfl⟩ :=
    List.mem_map.mp (settled.once.mem_iff.mpr (List.mem_range.mpr inside))
  by_cases done : report.isDone = true
  · obtain ⟨result, rfl⟩ := BatchReport.isDone_iff.mp done
    exact ⟨result, .inr (List.mem_append_right _ member)⟩
  · exact (handed (settled.incomplete ⟨_, member, done⟩).1).elim

/-- At an end where every batch is done the total was handed over. -/
theorem handed_of_allDone
    (orderly : Orderly batches (fun _ _ => True) s.progress) (done : s.AllDone batches)
    {value : Except MiningError MiningOutcome} (verdict : s.progress.verdict = some (.ok value)) :
    ∃ wallMillis answer outcome,
      Settled batches s.progress value wallMillis answer outcome ∧
        s.progress.totals = [outcome.result] ∧ outcome.isComplete = true := by
  obtain ⟨wallMillis, answer, outcome, settled⟩ := orderly.settled value verdict
  have all : ∀ entry ∈ s.progress.taken, entry.2.isDone = true := by
    rintro ⟨i, report⟩ member
    have inside : i < batches.length :=
      List.mem_range.mp (settled.once.mem_iff.mp (List.mem_map_of_mem member))
    obtain ⟨result, made⟩ := done i inside
    have once : (s.progress.taken.map Prod.fst).Nodup := settled.once.nodup_iff.mpr List.nodup_range
    cases List.inj_on_of_nodup_map once member (settled.arrived _ _ made) rfl
    rfl
  obtain ⟨totals, failures, skipped⟩ := settled.complete all
  exact ⟨wallMillis, answer, outcome, settled, totals,
    MiningOutcome.isComplete_iff.mpr ⟨failures, skipped⟩⟩

/-! One worker for all batches. -/

theorem siteSteps_play {script : Script Attempt} {attempt : Attempt} {files after : Files}
    (played : Plays script files attempt after) {i : Nat}
    (stage : s.progress.stages[i]? = some .running) (left : s.scripts[i]? = some script)
    (here : s.files = files) :
    SiteSteps output batches s
      { s with scripts := s.scripts.set i (.done attempt), files := after } := by
  induction played generalizing s with
  | done attempt files =>
      obtain ⟨inside, ended⟩ := List.getElem?_eq_some_iff.mp left
      have same : s.scripts.set i (.done attempt) = s.scripts := by
        rw [← ended, List.set_getElem_self]
      rw [same, ← here]
  | @ask request next answer attempt files now after response later ih =>
      subst here
      have asked : SiteStep output batches s
          { s with scripts := s.scripts.set i (next answer), files := now } :=
        .ask stage left response
      have inside := (List.getElem?_eq_some_iff.mp left).1
      have rest := ih (s := { s with scripts := s.scripts.set i (next answer), files := now }) stage
        (List.getElem?_set_self inside) rfl
      rw [List.set_set] at rest
      exact .head asked rest

/-- A batch is taken up, played to its end, and reported. -/
theorem siteSteps_attempt {before after : Nat} {entries : List (Nat × BatchReport)} {batch : Batch}
    (here : batches[before]? = some batch) (index : batch.index = before)
    {scripts : List (Script Attempt)} {script : Script Attempt}
    (left : scripts[before]? = some script) {attempt : Attempt} {files now : Files}
    (played : Plays script files attempt now) :
    SiteSteps output batches ⟨.between before (after + 1) false entries, scripts, files⟩
      ⟨.between (before + 1) after (BatchReport.ofAttempt batch attempt).isFailed
        (entries ++ [(before, .ofAttempt batch attempt)]), scripts.set before (.done attempt),
        now⟩ := by
  have start : SiteStep output batches ⟨.between before (after + 1) false entries, scripts, files⟩
      ⟨.midway before .running after false entries, scripts, files⟩ :=
    .go step_start_midway fun _ => (Option.some_ne_none _).symm
  have playing : SiteSteps output batches
      ⟨.midway before .running after false entries, scripts, files⟩
      ⟨.midway before .running after false entries, scripts.set before (.done attempt), now⟩ :=
    siteSteps_play played Progress.stage_midway left rfl
  have reached : Site.Reached
      ⟨.midway before .running after false entries, scripts.set before (.done attempt), now⟩ batch
      attempt := by
    rw [Site.Reached, index]
    exact List.getElem?_set_self (List.getElem?_eq_some_iff.mp left).1
  have finish : SiteStep output batches
      ⟨.midway before .running after false entries, scripts.set before (.done attempt), now⟩
      ⟨.midway before (.ended (.ofAttempt batch attempt)) after
        (BatchReport.ofAttempt batch attempt).isFailed entries,
        scripts.set before (.done attempt), now⟩ :=
    .go (step_finish_midway here reached) fun _ => (Option.some_ne_none _).symm
  have send : SiteStep output batches
      ⟨.midway before (.ended (.ofAttempt batch attempt)) after
        (BatchReport.ofAttempt batch attempt).isFailed entries,
        scripts.set before (.done attempt), now⟩
      ⟨.between (before + 1) after (BatchReport.ofAttempt batch attempt).isFailed
        (entries ++ [(before, .ofAttempt batch attempt)]), scripts.set before (.done attempt),
        now⟩ :=
    .go step_send_midway fun _ => (Option.some_ne_none _).symm
  exact .tail (.tail (.head start playing) finish) send

/-- What workers and the collector do among themselves, up to an end, is done in a site. -/
theorem siteSteps_of_steps {p q : Progress} {scripts : List (Script Attempt)} {files : Files}
    (steps : Steps batches (fun _ _ => False) p q)
    (unended : ∀ value, q.verdict ≠ some (.ok value)) :
    SiteSteps output batches ⟨p, scripts, files⟩ ⟨q, scripts, files⟩ := by
  induction steps with
  | refl => exact .refl
  | tail _ step ih =>
      have earlier := ih (step_unended step unended).2
      exact earlier.tail (.go (step.mono fun _ _ => False.elim) unended)

section Plays

theorem plays_writeInto (path contents : String) (files : Files) :
    Plays (writeInto Script.host path contents) files (.ok ())
      (Function.update files path (some contents)) :=
  .ask (.written ..) (.done _ _)

theorem plays_batchScript {batch : Batch} {result : MiningResult} {text : String}
    {files now : Files}
    (mined : Plays (processCommits config (directoryHistory Script.host limit patches)
      Script.host.millis .empty "" batch.commits) files (.ok (result, text)) now) :
    Plays (batchScript config limit patches output batch) files (.ok (.ok result))
      (Function.update (Function.update now (graphPath output batch.id) (some text))
        (metadataPath output batch.id) (some result.toSnapshot)) := by
  have both : Plays ((directorySink Script.host output).writeBatch batch.id text result) now
      (.ok ()) _ := .bind (plays_writeInto _ text now) (plays_writeInto _ _ _)
  exact .bind mined (.bind both (.done _ _))

theorem plays_batchScript_refused {batch : Batch} {result : MiningResult} {text : String}
    {files now : Files}
    (mined : Plays (processCommits config (directoryHistory Script.host limit patches)
      Script.host.millis .empty "" batch.commits) files (.ok (result, text)) now)
    (e : FileError) (left : Option String) :
    Plays (batchScript config limit patches output batch) files
      (.ok (.error ⟨graphPath output batch.id, e.text⟩))
      (Function.update now (graphPath output batch.id) left) := by
  have refused : Plays (writeInto Script.host (graphPath output batch.id) text) now
      (.error ⟨graphPath output batch.id, e.text⟩)
      (Function.update now (graphPath output batch.id) left) :=
    .ask (.refused _ _ e left) (.done _ _)
  have first : Plays ((directorySink Script.host output).writeBatch batch.id text result) now
      (.error ⟨graphPath output batch.id, e.text⟩) _ := .bind refused (.done _ _)
  exact .bind mined (.bind first (.done _ _))

/-- A batch of one commit whose patch is empty. -/
theorem plays_empty {id : String} (accepted : config.filter.acceptsCommit ⟨id, 1⟩ = true)
    (files : Files) :
    Plays (processCommits config (directoryHistory Script.host limit patches)
      Script.host.millis .empty "" [⟨id, 1⟩]) files
      (.ok (CommitOutcome.resultOf id 0 [], "")) files := by
  let path := join patches (id ++ "." ++ patchExtension)
  have clocked : Plays Script.host.millis files (0 : Nat) files :=
    .ask (.answered rfl _) (.done _ files)
  have sized : Plays (Script.host.fileSize path) files (.ok 0) files :=
    .ask (.answered rfl _) (.done _ files)
  have loaded : Plays (Script.host.readFile path) files (.ok []) files :=
    .ask (.answered rfl _) (.done _ files)
  have read : Plays (readFile Script.host limit path) files (.ok "") files :=
    .bind sized (.bind loaded (.done _ files))
  have answered : Plays ((directoryHistory Script.host limit patches).diff ⟨id, 1⟩) files
      (.files []) files := .bind read (.done _ files)
  have mined : Plays (processCommit config (directoryHistory Script.host limit patches)
      Script.host.millis ⟨id, 1⟩) files (.ok (.ofPatches config id 0 [])) files := by
    rw [processCommit]
    refine .bind clocked ?_
    rw [accepted]
    exact .bind answered (.bind clocked (.done _ files))
  have added : MiningResult.empty.append (CommitOutcome.ofPatches config id 0 []).result =
      .ok (CommitOutcome.resultOf id 0 []) := by
    rw [MiningResult.append_comm]
    exact MiningResult.append_empty (show MiningResult.Fits
      { MiningResult.empty with totalCommits := 1, emptyCommits := 1 } by decide)
  have nothing : (CommitOutcome.ofPatches config id 0 []).lineGraph = "" := writeTrees_nil _ _
  rw [processCommits]
  refine .bind mined ?_
  dsimp only
  rw [added, nothing, String.append_empty]
  exact .done _ files

end Plays

/-! The mark. -/

/-- The files of a run in which every batch is done: the total is that of the results of the
batches, and each of these has its own files. -/
structure Whole (config : Config) (limit : Nat) (patches output : String) (batches : List Batch)
    (s : Site) (outcome : MiningOutcome) : Prop where
  complete : outcome.isComplete = true
  sum : ∃ sum, MiningResult.empty.appendAll
      (MiningOutcome.doneResults (s.progress.taken.map Prod.snd)) = .ok sum ∧
    outcome.result = { sum with wallMillis := outcome.result.wallMillis }
  total : s.files (totalPath output) = some outcome.result.toSnapshot
  batch : ∀ i batch, batches[i]? = some batch → ∃ text result, s.progress.Made i (.done result) ∧
    MinedFrom config limit patches batch text result ∧
    HoldsBatch output batch.id text result s.files

theorem Tidy.whole (tidy : Tidy config limit patches output batches s)
    (orderly : Orderly batches (fun _ _ => True) s.progress)
    (unnamed : ∀ batch ∈ batches, batch.id ≠ totalId)
    {value : Except MiningError MiningOutcome} (verdict : s.progress.verdict = some (.ok value))
    (accepted : ∀ e, value ≠ .error (.sink e)) (done : s.AllDone batches) :
    ∃ outcome, value = .ok outcome ∧ Whole config limit patches output batches s outcome := by
  obtain ⟨wallMillis, answer, outcome, settled, totals, complete⟩ :=
    handed_of_allDone orderly done verdict
  have ok : value = .ok outcome := by
    have answered := settled.value
    rw [MiningOutcome.settle.eq_def, if_pos complete] at answered
    rcases answer with e | _
    · exact (accepted e answered).elim
    · exact answered
  obtain ⟨sum, added, result⟩ := settled.result
  have file : s.files (totalPath output) = some outcome.result.toSnapshot :=
    tidy.total (by simpa [verdict] using accepted) outcome.result (by simp [totals])
  refine ⟨outcome, ok, complete, ⟨sum, added, by rw [result]⟩, file, fun i batch here => ?_⟩
  obtain ⟨result, made⟩ := done i (List.getElem?_eq_some_iff.mp here).1
  obtain ⟨text, mined, holds⟩ :=
    tidy.holdsBatch here made (.inl (unnamed batch (List.mem_of_getElem? here)))
  exact ⟨text, result, made, mined, holds⟩

/-- What the file of the total says of a run on a directory, if no batch has the name of the total,
and what it does not say if one has. -/
structure Marked (config : Config) (limit : Nat) (patches output : String) (batches : List Batch)
    (s : Site) : Prop where
  /-- At any time, the file is there only if every batch is done. -/
  finished : (∀ batch ∈ batches, batch.id ≠ totalId) → (s.files (totalPath output)).isSome →
    s.AllDone batches
  /-- At the end, if the total could be written, it is there if every batch is done. -/
  ended : (∀ batch ∈ batches, batch.id ≠ totalId) →
    ∀ value, s.progress.verdict = some (.ok value) → (∀ e, value ≠ .error (.sink e)) →
      ((s.files (totalPath output)).isSome ↔ s.AllDone batches) ∧
        (s.AllDone batches →
          ∃ outcome, value = .ok outcome ∧ Whole config limit patches output batches s outcome)
  /-- A batch of that name puts its own metadata where the total is looked for. -/
  mistaken : ∀ i batch result, batches[i]? = some batch → batch.id = totalId →
    s.progress.Made i (.done result) → s.progress.totals = [] →
    s.files (totalPath output) = some result.toSnapshot

/-- After a run on a directory of patches there is a total if and only if every batch is done,
unless a batch has the name of the total. -/
theorem total_marks_complete_run {names : List String} {commits : List CommitInfo}
    (unique : names.Nodup) (slashless : ∀ name ∈ names, '/' ∉ name.toList)
    (listed : Lists patches names commits) (cut : partition commits config.batchSize = .ok batches)
    (run : SiteSteps output batches (.initial config limit patches output batches) s) :
    Marked config limit patches output batches s := by
  obtain ⟨distinct, plain⟩ := listed.ids unique slashless
  have ids := ids_sublist_of_partition cut
  have named : Named batches :=
    ⟨fun _ _ => index_of_partition cut,
      fun batch member => plain _ (ids.subset (List.mem_map_of_mem member)), ids.nodup distinct⟩
  have tidy := tidy_of_run named run
  have orderly := orderly_of_run (steps_of_siteSteps run)
  have finished (unnamed : ∀ batch ∈ batches, batch.id ≠ totalId)
      (present : (s.files (totalPath output)).isSome) : s.AllDone batches := by
    refine allDone_of_handed orderly fun none => ?_
    rw [tidy.absent unnamed none] at present
    cases present
  refine ⟨finished, fun unnamed value verdict accepted => ?_, ?_⟩
  · have whole := tidy.whole orderly unnamed verdict accepted
    refine ⟨⟨finished unnamed, fun done => ?_⟩, whole⟩
    obtain ⟨outcome, -, files⟩ := whole done
    rw [files.total]
    rfl
  · intro i batch result here same made early
    obtain ⟨text, -, holds⟩ := tidy.holdsBatch here made (.inr early)
    rw [← metadataPath_totalId, ← same]
    exact holds.2

/-- A directory with one empty patch. -/
theorem total_marks_run_of_one_batch :
    let batches : List Batch := [⟨0, "a", [⟨"a", 1⟩]⟩]
    ∃ s outcome, SiteSteps "o" batches (.initial .standard 0 "h" "o" batches) s ∧
      s.progress.verdict = some (.ok (.ok outcome)) ∧
      (∀ e, (Except.ok outcome : Except MiningError MiningOutcome) ≠ .error (.sink e)) ∧
      Whole .standard 0 "h" "o" batches s outcome := by
  intro batches
  let names := ["a.diff"]
  let commits : List CommitInfo := [⟨"a", 1⟩]
  let batch : Batch := ⟨0, "a", [⟨"a", 1⟩]⟩
  have ids : List.Forall₂ (fun name id => commitOfName? name = some id) names ["a"] :=
    .cons (by decide) .nil
  have listed : Lists "h" names commits := lists_of_forall₂ ids (by decide)
  have cut : partition commits Config.standard.batchSize = .ok batches := by
    simp [partition, batches?, Config.standard, Config.defaultBatchSize, commits, batches, chunks,
      Batch.ofChunk]
  let result : MiningResult := CommitOutcome.resultOf "a" 0 []
  let written : Files := Function.update (Function.update (fun _ => none)
    (graphPath "o" "a") (some "")) (metadataPath "o" "a") (some result.toSnapshot)
  let ended : List (Script Attempt) := [.done (.ok (.ok result))]
  have plays : Plays (batchScript .standard 0 "h" "o" batch) (fun _ => none) (.ok (.ok result))
      written := plays_batchScript (plays_empty rfl _)
  have done : SiteSteps "o" batches (.initial .standard 0 "h" "o" batches)
      ⟨.between 1 0 false [(0, .done result)], ended, written⟩ :=
    siteSteps_attempt (show batches[0]? = some batch from rfl) rfl rfl plays
  let taken : Progress := { Progress.between 1 0 false [] with
    taken := [(0, .done result)]
    outcome := { MiningOutcome.empty with result } }
  have collected : SiteSteps "o" batches
      ⟨.between 1 0 false [(0, .done result)], ended, written⟩ ⟨taken, ended, written⟩ :=
    siteSteps_of_steps (steps_collect rfl rfl rfl) fun _ => (Option.some_ne_none _).symm
  let outcome : MiningOutcome := taken.outcome.finish 7
  have complete : outcome.isComplete = true :=
    (MiningOutcome.isComplete_finish 7 taken.outcome).trans rfl
  have sent : ∀ stage ∈ taken.stages, stage = .sent := by simp [taken, Progress.between]
  have handed : Hands "o" outcome written (.ok ())
      (Function.update written (totalPath "o") (some outcome.result.toSnapshot)) :=
    .total complete (plays_writeInto _ _ _)
  let concluded : Site := ⟨{ taken with
    totals := outcome.totals
    verdict := some (.ok (outcome.settle (.ok ()))) }, ended,
    Function.update written (totalPath "o") (some outcome.result.toSnapshot)⟩
  have close : SiteStep "o" batches ⟨taken, ended, written⟩ concluded :=
    .close rfl sent rfl 7 handed
  have run : SiteSteps "o" batches (.initial .standard 0 "h" "o" batches) concluded :=
    (done.trans collected).tail close
  have verdict : concluded.progress.verdict = some (.ok (.ok outcome)) := by
    simp only [concluded, MiningOutcome.settle, complete, if_true]
  have all : concluded.AllDone batches := by
    intro i inside
    obtain rfl : i = 0 := Nat.lt_one_iff.mp inside
    exact ⟨result, .inr (.head _)⟩
  have marked := total_marks_complete_run (by decide) (by decide) listed cut run
  have accepted (e : SinkError) :
      (Except.ok outcome : Except MiningError MiningOutcome) ≠ .error (.sink e) := by
    rintro ⟨⟩
  obtain ⟨-, whole⟩ := marked.ended (by decide) _ verdict accepted
  obtain ⟨same, equal, files⟩ := whole all
  cases equal
  exact ⟨concluded, _, run, verdict, accepted, files⟩

/-- The batch of the commit with the name of the total is done, that of the other is not. -/
theorem not_total_marks_complete_run :
    let config : Config := { Config.standard with batchSize := 1 }
    let names := ["totalresult.diff", "z.diff"]
    let commits : List CommitInfo := [⟨"totalresult", 1⟩, ⟨"z", 1⟩]
    let batches : List Batch :=
      [⟨0, "totalresult", [⟨"totalresult", 1⟩]⟩, ⟨1, "z", [⟨"z", 1⟩]⟩]
    names.Nodup ∧ Lists "h" names commits ∧ partition commits config.batchSize = .ok batches ∧
      ∃ s outcome, SiteSteps "o" batches (.initial config 0 "h" "o" batches) s ∧
        s.progress.verdict = some (.ok (.ok outcome)) ∧ (s.files (totalPath "o")).isSome ∧
        ¬ s.AllDone batches := by
  intro config names commits batches
  have ids : List.Forall₂ (fun name id => commitOfName? name = some id) names
      ["totalresult", "z"] := .cons (by decide) (.cons (by decide) .nil)
  have cut : partition commits config.batchSize = .ok batches := by
    simp [partition, batches?, config, commits, batches, chunks, Batch.ofChunk]
  let named : Batch := ⟨0, "totalresult", [⟨"totalresult", 1⟩]⟩
  let other : Batch := ⟨1, "z", [⟨"z", 1⟩]⟩
  let result : MiningResult := CommitOutcome.resultOf "totalresult" 0 []
  let e : SinkError := ⟨graphPath "o" "z", FileError.nameTooLong.text⟩
  let first : Files := Function.update (Function.update (fun _ => none)
    (graphPath "o" "totalresult") (some "")) (metadataPath "o" "totalresult")
    (some result.toSnapshot)
  let second : Files := Function.update first (graphPath "o" "z") none
  let entries : List (Nat × BatchReport) := [(0, .done result), (1, .failed ⟨"z", .sink e⟩)]
  let ended : List (Script Attempt) := [.done (.ok (.ok result)), .done (.ok (.error e))]
  have playsNamed : Plays (batchScript config 0 "h" "o" named) (fun _ => none)
      (.ok (.ok result)) first := plays_batchScript (plays_empty rfl _)
  have playsOther : Plays (batchScript config 0 "h" "o" other) first (.ok (.error e)) second :=
    plays_batchScript_refused (plays_empty rfl _) .nameTooLong none
  have done : SiteSteps "o" batches (.initial config 0 "h" "o" batches)
      ⟨.between 1 1 false [(0, .done result)],
        [.done (.ok (.ok result)), batchScript config 0 "h" "o" other], first⟩ :=
    siteSteps_attempt (show batches[0]? = some named from rfl) rfl rfl playsNamed
  have refused : SiteSteps "o" batches
      ⟨.between 1 1 false [(0, .done result)],
        [.done (.ok (.ok result)), batchScript config 0 "h" "o" other], first⟩
      ⟨.between 2 0 true entries, ended, second⟩ :=
    siteSteps_attempt (show batches[1]? = some other from rfl) rfl rfl playsOther
  let both : Progress := { Progress.between 2 0 true [] with
    taken := entries
    outcome := { MiningOutcome.empty with result, failures := [⟨"z", .sink e⟩] } }
  have collected : SiteSteps "o" batches ⟨.between 2 0 true entries, ended, second⟩
      ⟨both, ended, second⟩ :=
    siteSteps_of_steps (steps_collect rfl rfl rfl) fun _ => (Option.some_ne_none _).symm
  have incomplete : (both.outcome.finish 7).isComplete = false :=
    (MiningOutcome.isComplete_finish 7 both.outcome).trans rfl
  have sent : ∀ stage ∈ both.stages, stage = .sent := by simp [both, Progress.between]
  let concluded : Site := ⟨{ both with
    totals := (both.outcome.finish 7).totals
    verdict := some (.ok ((both.outcome.finish 7).settle (.ok ()))) }, ended, second⟩
  have close : SiteStep "o" batches ⟨both, ended, second⟩ concluded :=
    .close rfl sent rfl 7 (.nothing (.ok ()) incomplete)
  have run : SiteSteps "o" batches (.initial config 0 "h" "o" batches) concluded :=
    ((done.trans refused).trans collected).tail close
  have verdict : concluded.progress.verdict = some (.ok (.ok (both.outcome.finish 7))) := by
    simp only [concluded, MiningOutcome.settle, incomplete, Bool.false_eq_true, if_false]
  have present : concluded.files (totalPath "o") = some result.toSnapshot := by
    have apart : totalPath "o" ≠ graphPath "o" "z" :=
      (graphPath_ne_metadataPath (by decide) (by decide)).symm
    exact (Function.update_of_ne apart _ _).trans (Function.update_self ..)
  refine ⟨by decide, lists_of_forall₂ ids (by decide), cut, concluded, _, run, verdict,
    by rw [present]; rfl, fun all => ?_⟩
  obtain ⟨claimed, sending | reported⟩ := all 1 (by decide)
  · cases sending
  · have member : (1, .done claimed) ∈ entries := reported
    simp [entries] at member

end Variability.CommandLine
