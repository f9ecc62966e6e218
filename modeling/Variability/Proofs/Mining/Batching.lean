import Mathlib.Data.List.Perm.Basic
import Variability.Proofs.Mining.Cancellation
import Variability.Proofs.Mining.PureHistory

/-!
How a history is cut into batches does not show in its total: the results of the batches, in
whatever order they arrive, add up to those of the commits, times apart.
-/

namespace Variability.Mining

/-! Pieces of a list. -/

theorem chunk_bounds {α : Type} (more : Nat) (as : List α) :
    ∀ chunk ∈ chunks more as, 1 ≤ chunk.length ∧ chunk.length ≤ more + 1 := by
  fun_induction Mining.chunks more as with
  | case1 => simp
  | case2 a as ih =>
      rintro chunk (_ | ⟨_, member⟩)
      · simp
      · exact ih chunk member

theorem chunk_full {α : Type} (more : Nat) (as : List α) :
    ∀ chunk ∈ (chunks more as).dropLast, chunk.length = more + 1 := by
  fun_induction Mining.chunks more as with
  | case1 => simp
  | case2 a as ih =>
      cases rest : chunks more (as.drop more) with
      | nil => simp
      | cons next others =>
          have long : more < as.length := by
            by_contra short
            rw [List.drop_eq_nil_of_le (Nat.le_of_not_lt short), chunks] at rest
            cases rest
          rw [List.dropLast_cons_cons, ← rest]
          rintro chunk (_ | ⟨_, member⟩)
          · rw [List.length_cons, List.length_take, Nat.min_eq_left (Nat.le_of_lt long)]
          · exact ih chunk member

theorem partition_positive (commits : List CommitInfo) {size : Nat} (positive : 1 ≤ size) :
    ∃ batches, partition commits size = .ok batches ∧ batches.flatMap (·.commits) = commits ∧
      (∀ b ∈ batches, 1 ≤ b.commits.length ∧ b.commits.length ≤ size) ∧
      ∀ b ∈ batches.dropLast, b.commits.length = size := by
  obtain ⟨more, rfl⟩ := Nat.exists_eq_add_of_le' positive
  have pieces : ((chunks more commits).mapIdx Batch.ofChunk).map (·.commits) =
      chunks more commits := by
    refine List.ext_getElem? fun i => ?_
    simp [Batch.ofChunk, Function.comp_def]
  refine ⟨_, rfl, ?_, fun b member => ?_, fun b member => ?_⟩
  · rw [List.flatMap_def, pieces, flatten_chunks]
  · apply chunk_bounds more commits
    rw [← pieces]
    exact List.mem_map_of_mem member
  · apply chunk_full more commits
    rw [← pieces, ← List.map_dropLast]
    exact List.mem_map_of_mem member

theorem flatMap_of_partition {commits : List CommitInfo} {size : Nat} {batches : List Batch}
    (cut : partition commits size = .ok batches) : batches.flatMap (·.commits) = commits := by
  cases size with
  | zero => cases cut
  | succ more =>
      obtain ⟨_, same, whole, -⟩ := partition_positive commits (Nat.le_add_left 1 more)
      rwa [Except.ok.inj (cut.symm.trans same)]

theorem exists_chunks_of_partition {commits : List CommitInfo} {size : Nat} {batches : List Batch}
    (cut : partition commits size = .ok batches) :
    ∃ more, batches = (chunks more commits).mapIdx Batch.ofChunk := by
  cases size with
  | zero => cases cut
  | succ more => exact ⟨more, (Except.ok.inj cut).symm⟩

theorem index_of_partition {commits : List CommitInfo} {size : Nat} {batches : List Batch}
    (cut : partition commits size = .ok batches) {i : Nat} {batch : Batch}
    (here : batches[i]? = some batch) : batch.index = i := by
  obtain ⟨more, rfl⟩ := exists_chunks_of_partition cut
  rw [List.getElem?_mapIdx, Option.map_eq_some_iff] at here
  obtain ⟨chunk, -, rfl⟩ := here
  rfl

theorem heads_sublist (more : Nat) (commits : List CommitInfo) :
    ((chunks more commits).map fun chunk => (chunk.head?.map (·.id)).getD "").Sublist
      (commits.map (·.id)) := by
  fun_induction Mining.chunks more commits with
  | case1 => exact .slnil
  | case2 commit commits ih =>
      exact (ih.trans (.map _ (List.drop_sublist more commits))).cons_cons commit.id

/-- Batches are named by commits, no two by one. -/
theorem ids_sublist_of_partition {commits : List CommitInfo} {size : Nat} {batches : List Batch}
    (cut : partition commits size = .ok batches) :
    (batches.map (·.id)).Sublist (commits.map (·.id)) := by
  obtain ⟨more, rfl⟩ := exists_chunks_of_partition cut
  have names : ((chunks more commits).mapIdx Batch.ofChunk).map (·.id) =
      (chunks more commits).map fun chunk => (chunk.head?.map (·.id)).getD "" := by
    refine List.ext_getElem? fun i => ?_
    simp [Batch.ofChunk, Function.comp_def]
  rw [names]
  exact heads_sublist more commits

/-! Runs in which nothing goes wrong. -/

section Run

variable {W : Type} {config : Config} {commits : List CommitInfo} {diffs : CommitInfo → DiffAnswer}
  {clock : StateM W Nat} {sink : Sink (StateM W)}

/-- A run whose sink takes every batch and in which no worker panics. -/
structure Undisturbed (config : Config) (commits : List CommitInfo)
    (diffs : CommitInfo → DiffAnswer) (clock : StateM W Nat) (sink : Sink (StateM W))
    (batches : List Batch) (s : Progress) : Prop where
  accepts : ∀ id lineGraph result w, ((sink.writeBatch id lineGraph result).run w).1 = .ok ()
  steps : Steps batches (Attempts config (.ofDiffs commits diffs) clock sink) (.initial batches) s
  calm : ∀ i failure, s.Made i (.failed failure) → ∀ message, failure.error ≠ .panicked message

/-- A report of a batch that is done, with the results of its commits in it. -/
def DoneWith (config : Config) (diffs : CommitInfo → DiffAnswer) (batch : Batch)
    (report : BatchReport) : Prop :=
  ∃ rs, List.Forall₂ (Mined config diffs) batch.commits rs ∧
    report = .done (MiningResult.mergeAll rs)

variable {batches : List Batch} {s : Progress}

theorem Undisturbed.done (run : Undisturbed config commits diffs clock sink batches s) {i : Nat}
    {report : BatchReport} (made : s.Made i report) :
    ∃ batch, batches[i]? = some batch ∧ DoneWith config diffs batch report := by
  have honest := honest_of_run run.steps
  have unfailed {j : Nat} {failure : WorkerFailure} : ¬ s.Made j (.failed failure) := by
    intro failed
    obtain ⟨batch, -, skipped | ⟨attempt, allowed, ended⟩⟩ := honest.genuine _ _ failed
    · cases skipped
    · rcases attempt with fault | e | result
      · cases ended
        exact run.calm _ _ failed _ rfl
      · exact not_refused run.accepts allowed
      · cases ended
  obtain ⟨batch, here, skipped | ⟨attempt, allowed, ended⟩⟩ := honest.genuine _ _ made
  · subst skipped
    obtain ⟨j, failure, failed⟩ := honest.flagged.mp (honest.skipped _ _ made)
    exact (unfailed failed).elim
  · refine ⟨batch, here, ?_⟩
    rcases attempt with fault | e | result
    · subst ended
      exact (unfailed made).elim
    · subst ended
      exact (unfailed made).elim
    · obtain ⟨rs, mined, rfl⟩ := mined_of_attempts allowed
      exact ⟨rs, mined, ended⟩

theorem mergeAll_of_doneWith {entries : List (Nat × BatchReport)}
    (each : List.Forall₂ (fun batch entry => DoneWith config diffs batch entry.2) batches entries) :
    ∃ rs, List.Forall₂ (Mined config diffs) (batches.flatMap (·.commits)) rs ∧
      MiningResult.mergeAll (MiningOutcome.doneResults (entries.map Prod.snd)) =
        MiningResult.mergeAll rs := by
  induction each with
  | nil => exact ⟨[], .nil, rfl⟩
  | @cons batch entry batches entries done _ ih =>
      obtain ⟨rs, mined, report⟩ := done
      obtain ⟨others, minedOthers, same⟩ := ih
      refine ⟨rs ++ others, List.rel_append mined minedOthers, ?_⟩
      rw [MiningResult.mergeAll_append, ← same, List.map_cons, report]
      rfl

/-- A report of a batch at its position. -/
def DoneAt (config : Config) (diffs : CommitInfo → DiffAnswer) (batches : List Batch)
    (entry : Nat × BatchReport) : Prop :=
  ∃ batch, batches[entry.1]? = some batch ∧ DoneWith config diffs batch entry.2

theorem mergeAll_of_doneAt {entries : List (Nat × BatchReport)}
    (once : (entries.map Prod.fst).Perm (List.range batches.length))
    (done : ∀ entry ∈ entries, DoneAt config diffs batches entry) :
    ∃ rs, List.Forall₂ (Mined config diffs) (batches.flatMap (·.commits)) rs ∧
      MiningResult.mergeAll (MiningOutcome.doneResults (entries.map Prod.snd)) =
        MiningResult.mergeAll rs := by
  -- In the order of their positions, the reports stand beside their batches.
  obtain ⟨inOrder, positions, sorted⟩ :
      Relation.Comp (· = List.map Prod.fst ·) List.Perm (List.range batches.length) entries := by
    rw [List.eq_map_comp_perm]
    exact once.symm
  have each : List.Forall₂ (fun batch entry => DoneWith config diffs batch entry.2)
      batches inOrder := by
    refine List.forall₂_iff_get.mpr ⟨?_, fun i inside insideToo => ?_⟩
    · simpa using congrArg List.length positions
    · have position : inOrder[i].1 = i := by
        have read := congrArg (·[i]?) positions
        simpa [inside, insideToo, eq_comm] using read
      obtain ⟨batch, here, report⟩ :=
        done inOrder[i] (sorted.mem_iff.mp (List.getElem_mem insideToo))
      rw [position] at here
      obtain ⟨_, rfl⟩ := List.getElem?_eq_some_iff.mp here
      exact report
  obtain ⟨rs, mined, same⟩ := mergeAll_of_doneWith each
  refine ⟨rs, mined, ?_⟩
  rw [← same]
  exact MiningResult.mergeAll_perm (.filterMap _ (sorted.symm.map Prod.snd))

theorem exists_doneWith {rs : List MiningResult}
    (mined : List.Forall₂ (Mined config diffs) (batches.flatMap (·.commits)) rs) {batch : Batch}
    (member : batch ∈ batches) : ∃ report, DoneWith config diffs batch report := by
  have each (listed : List CommitInfo) (part : ∀ commit ∈ listed, commit ∈ batch.commits) :
      ∃ ss, List.Forall₂ (Mined config diffs) listed ss := by
    induction listed with
    | nil => exact ⟨[], .nil⟩
    | cons commit others ih =>
        obtain ⟨ss, rest⟩ := ih fun other inside => part other (.tail commit inside)
        obtain ⟨r, -, first⟩ := exists_of_forall₂ mined
          (List.mem_flatMap.mpr ⟨batch, member, part commit (.head others)⟩)
        exact ⟨r :: ss, .cons first rest⟩
  obtain ⟨ss, minedBatch⟩ := each batch.commits fun _ inside => inside
  exact ⟨_, ss, minedBatch, rfl⟩

theorem exists_complement {rs : List MiningResult}
    (mined : List.Forall₂ (Mined config diffs) (batches.flatMap (·.commits)) rs)
    {entries : List (Nat × BatchReport)} (unique : (entries.map Prod.fst).Nodup)
    (inside : ∀ i ∈ entries.map Prod.fst, i < batches.length) :
    ∃ others : List (Nat × BatchReport),
      ((entries ++ others).map Prod.fst).Perm (List.range batches.length) ∧
        ∀ entry ∈ others, DoneAt config diffs batches entry := by
  let missing := (List.range batches.length).filter (· ∉ entries.map Prod.fst)
  have reports (positions : List Nat) (bound : ∀ i ∈ positions, i < batches.length) :
      ∃ others : List (Nat × BatchReport), others.map Prod.fst = positions ∧
        ∀ entry ∈ others, DoneAt config diffs batches entry := by
    induction positions with
    | nil => exact ⟨[], rfl, nofun⟩
    | cons i positions ih =>
        obtain ⟨others, same, done⟩ := ih fun j member => bound j (.tail i member)
        have here := bound i (.head positions)
        obtain ⟨report, reported⟩ := exists_doneWith mined (List.getElem_mem here)
        refine ⟨(i, report) :: others, by rw [List.map_cons, same], ?_⟩
        rintro entry (_ | ⟨_, member⟩)
        · exact ⟨batches[i], List.getElem?_eq_getElem here, reported⟩
        · exact done entry member
  obtain ⟨others, same, done⟩ := reports missing fun i member =>
    List.mem_range.mp (List.mem_of_mem_filter member)
  refine ⟨others, ?_, done⟩
  rw [List.map_append, same]
  refine (List.perm_ext_iff_of_nodup ?_ List.nodup_range).mpr fun i => ?_
  · refine unique.append (List.nodup_range.filter _) fun i member absent => ?_
    simp only [missing, List.mem_filter, decide_eq_true_eq] at absent
    exact absent.2 member
  · simp only [missing, List.mem_append, List.mem_filter, List.mem_range, decide_eq_true_eq]
    have bound := inside i
    tauto

theorem DoneAt.wallMillis {entries : List (Nat × BatchReport)}
    (done : ∀ entry ∈ entries, DoneAt config diffs batches entry) :
    ∀ r ∈ MiningOutcome.doneResults (entries.map Prod.snd), r.wallMillis = 0 := by
  intro r member
  obtain ⟨report, listed, found⟩ := List.mem_filterMap.mp member
  obtain ⟨entry, inside, rfl⟩ := List.mem_map.mp listed
  obtain ⟨batch, -, rs, mined, report⟩ := done entry inside
  rw [report] at found
  cases found
  refine MiningResult.wallMillis_mergeAll fun s inside => ?_
  obtain ⟨commit, -, each⟩ := exists_of_forall₂ mined.flip inside
  exact Mined.wallMillis each

/-- A total that the commits have one after the other, times apart: whatever results they have, and
whatever time they take, they add up to it. -/
structure Sums (config : Config) (diffs : CommitInfo → DiffAnswer) (commits : List CommitInfo)
    (total : MiningResult) : Prop where
  mined : ∃ rs, List.Forall₂ (Mined config diffs) commits rs
  timeless : ∀ rs, List.Forall₂ (Mined config diffs) commits rs →
    MiningResult.empty.appendAll (rs.map MiningResult.timeless) = .ok total.timeless
  whole : ∀ rs, List.Forall₂ (Mined config diffs) commits rs →
    ∀ whole, MiningResult.empty.appendAll rs = .ok whole → whole.timeless = total.timeless

theorem sums_of_mined {rs : List MiningResult} {total : MiningResult}
    (mined : List.Forall₂ (Mined config diffs) commits rs)
    (fits : (MiningResult.mergeAll rs).Fits)
    (same : total.timeless = (MiningResult.mergeAll rs).timeless) :
    Sums config diffs commits total where
  mined := ⟨rs, mined⟩
  timeless ss minedToo := by
    rw [MiningResult.empty_appendAll_eq_ok_iff, timeless_eq_of_mined minedToo mined,
      ← MiningResult.timeless_mergeAll, same]
    exact ⟨fits.timeless, rfl⟩
  whole ss minedToo whole summed := by
    obtain ⟨-, rfl⟩ := MiningResult.empty_appendAll_eq_ok_iff.mp summed
    rw [MiningResult.timeless_mergeAll, timeless_eq_of_mined minedToo mined,
      ← MiningResult.timeless_mergeAll, same]

theorem Undisturbed.doneAt (run : Undisturbed config commits diffs clock sink batches s) :
    ∀ entry ∈ s.taken, DoneAt config diffs batches entry :=
  fun _ member => run.done (.inr (List.mem_append_right _ member))

/-- An undisturbed run that has come to its end. -/
structure Completed (config : Config) (diffs : CommitInfo → DiffAnswer)
    (commits : List CommitInfo) (batches : List Batch) (s : Progress) : Prop where
  once : (s.taken.map Prod.fst).Perm (List.range batches.length)
  done : ∀ entry ∈ s.taken, ∃ result, entry.2 = .done result
  total : ∃ total, s.totals = [total] ∧ Sums config diffs commits total

theorem sums_of_settled (run : Undisturbed config commits diffs clock sink batches s)
    {value : Except MiningError MiningOutcome} {wallMillis : Nat} {answer : Except SinkError Unit}
    {outcome : MiningOutcome} (settled : Settled batches s value wallMillis answer outcome) :
    Sums config diffs (batches.flatMap (·.commits)) outcome.result := by
  obtain ⟨total, sum, result⟩ := settled.result
  obtain ⟨fits, rfl⟩ := MiningResult.empty_appendAll_eq_ok_iff.mp sum
  obtain ⟨rs, mined, same⟩ := mergeAll_of_doneAt settled.once run.doneAt
  refine sums_of_mined mined (same ▸ fits) ?_
  rw [result, ← same]
  rfl

theorem Undisturbed.completed (run : Undisturbed config commits diffs clock sink batches s)
    {value : Except MiningError MiningOutcome} (verdict : s.verdict = some (.ok value)) :
    Completed config diffs (batches.flatMap (·.commits)) batches s := by
  obtain ⟨wallMillis, answer, outcome, settled⟩ := (orderly_of_run run.steps).settled value verdict
  have done : ∀ entry ∈ s.taken, ∃ result, entry.2 = .done result := by
    intro entry member
    obtain ⟨batch, -, rs, -, report⟩ := run.doneAt entry member
    exact ⟨_, report⟩
  obtain ⟨totals, -, -⟩ := settled.complete fun entry member =>
    BatchReport.isDone_iff.mpr (done entry member)
  exact ⟨settled.once, done, outcome.result, totals, sums_of_settled run settled⟩

/-- Where the commits have a total, times apart, it is the time that does not fit if there is none
with times. -/
theorem Undisturbed.runtime_wide (run : Undisturbed config commits diffs clock sink batches s)
    {fault : Fault} (verdict : s.verdict = some (.error fault)) {rs : List MiningResult}
    (mined : List.Forall₂ (Mined config diffs) (batches.flatMap (·.commits)) rs)
    {sum : MiningResult}
    (summed : MiningResult.empty.appendAll (rs.map MiningResult.timeless) = .ok sum) :
    Text.wordLimit ≤
      ((MiningOutcome.doneResults (s.taken.map Prod.snd)).map (·.runtimeMillis)).sum := by
  have orderly := orderly_of_run run.steps
  have unique : (s.taken.map Prod.fst).Nodup :=
    orderly.unique.sublist (.map _ (List.sublist_append_right _ _))
  have inside : ∀ i ∈ s.taken.map Prod.fst, i < batches.length := by
    intro i member
    obtain ⟨entry, listed, rfl⟩ := List.mem_map.mp member
    obtain ⟨batch, here, -⟩ := run.doneAt entry listed
    exact (List.getElem?_eq_some_iff.mp here).1
  -- The run may have stopped before its last report; it is made whole by reports of the rest.
  obtain ⟨others, once, done⟩ := exists_complement mined unique inside
  obtain ⟨ss, minedToo, same⟩ := mergeAll_of_doneAt once
    (List.forall_mem_append.mpr ⟨run.doneAt, done⟩)
  have fits : (MiningResult.mergeAll
      (MiningOutcome.doneResults (s.taken.map Prod.snd))).timeless.Fits := by
    obtain ⟨fits, -⟩ := MiningResult.empty_appendAll_eq_ok_iff.mp summed
    rw [timeless_eq_of_mined mined minedToo, ← MiningResult.timeless_mergeAll, ← same,
      List.map_append, MiningOutcome.doneResults, List.filterMap_append,
      MiningResult.mergeAll_append, MiningResult.timeless_merge] at fits
    exact fits.left
  by_contra narrow
  have whole := MiningResult.fits_of_timeless fits
    (MiningResult.runtimeMillis_mergeAll _ ▸ Nat.lt_of_not_le narrow)
    (by rw [MiningResult.wallMillis_mergeAll (DoneAt.wallMillis run.doneAt)]; decide)
  have faulted := orderly.faulted fault verdict
  rw [MiningResult.empty_appendAll_eq_ok_iff.mpr ⟨whole, rfl⟩] at faulted
  cases faulted

theorem sums_of_mine (accepts : ∀ id lineGraph result w,
      ((sink.writeBatch id lineGraph result).run w).1 = .ok ()) {w : W} {outcome : MiningOutcome}
    (ended : ((mine config (.ofDiffs commits diffs) clock sink).run w).1 = .ok (.ok outcome))
    (unfailed : outcome.failures = []) : Sums config diffs commits outcome.result := by
  obtain ⟨message, listed, -⟩ | ⟨listing, listed, ⟨e, -, refused⟩ |
      ⟨batches, s, cut, steps, verdict⟩⟩ :=
    steps_mine config (.ofDiffs commits diffs) clock sink w
  · cases listed
  · rw [refused] at ended
    cases ended
  · cases listed
    rw [ended] at verdict
    have orderly := orderly_of_run steps
    obtain ⟨wallMillis, answer, settledOutcome, settled⟩ := orderly.settled _ verdict
    obtain rfl := MiningOutcome.eq_of_settle_eq_ok settled.value.symm
    have calm (i : Nat) (failure : WorkerFailure) (made : s.Made i (.failed failure)) : False :=
      (settled.incomplete ⟨_, settled.arrived _ _ made, nofun⟩).2.1 unfailed
    have run : Undisturbed config commits diffs clock sink batches s :=
      ⟨accepts, steps, fun i failure made => (calm i failure made).elim⟩
    exact flatMap_of_partition cut ▸ sums_of_settled run settled

end Run

/-! Runs that differ in their batches. -/

variable {config : Config} {commits : List CommitInfo} {diffs : CommitInfo → DiffAnswer}

/-- A total that some undisturbed run ends with. -/
def RunTotal (config : Config) (commits : List CommitInfo) (diffs : CommitInfo → DiffAnswer)
    (total : MiningResult) : Prop :=
  ∃ (W : Type) (clock : StateM W Nat) (sink : Sink (StateM W)) (batches : List Batch)
    (s : Progress) (value : Except MiningError MiningOutcome),
    partition commits config.batchSize = .ok batches ∧
      Undisturbed config commits diffs clock sink batches s ∧
      s.verdict = some (.ok value) ∧ s.totals = [total]

theorem RunTotal.sums {total : MiningResult} (run : RunTotal config commits diffs total) :
    Sums config diffs commits total := by
  obtain ⟨W, clock, sink, batches, s, value, cut, undisturbed, verdict, totals⟩ := run
  obtain ⟨-, -, other, same, sums⟩ := undisturbed.completed verdict
  rw [totals] at same
  cases same
  exact flatMap_of_partition cut ▸ sums

theorem Sums.timeless_eq {total total' : MiningResult} (first : Sums config diffs commits total)
    (second : Sums config diffs commits total') : total.timeless = total'.timeless := by
  obtain ⟨rs, mined⟩ := first.mined
  exact Except.ok.inj ((first.timeless rs mined).symm.trans (second.timeless rs mined))

theorem CommitOutcome.ofDiff_batchSize (config : Config) (size : Nat) :
    ofDiff { config with batchSize := size } = ofDiff config := by
  funext millis d
  rw [ofDiff_eq, ofDiff_eq]
  rfl

theorem mined_batchSize (config : Config) (size : Nat) :
    Mined { config with batchSize := size } = Mined config := by
  funext diffs commit result
  unfold Mined processCommit
  rw [CommitOutcome.ofDiff_batchSize]

/-- Nothing about a commit depends on how many are mined together. -/
theorem sums_batchSize {size : Nat} {total : MiningResult}
    (sums : Sums { config with batchSize := size } diffs commits total) :
    Sums config diffs commits total := by
  obtain ⟨mined, timeless, whole⟩ := sums
  rw [mined_batchSize] at mined timeless whole
  exact ⟨mined, timeless, whole⟩

end Variability.Mining
