import Mathlib.Data.List.Forall2
import Variability.Proofs.Mining.Counting
import Variability.Proofs.Mining.Sequential
import Variability.Proofs.MiningResult.Timeless

/-!
Mining a history that always gives the same diff for a commit. What a commit comes to is then a
matter of its diff alone, times apart, and a batch that is done has the results of its commits in
its own.
-/

namespace Variability.Mining

theorem exists_of_forall₂ {α β : Type} {R : α → β → Prop} {as : List α} {bs : List β}
    (each : List.Forall₂ R as bs) {a : α} (member : a ∈ as) : ∃ b ∈ bs, R a b := by
  induction each with
  | nil => cases member
  | cons first _ ih =>
      rcases List.mem_cons.mp member with rfl | later
      · exact ⟨_, by simp, first⟩
      · obtain ⟨b, listed, holds⟩ := ih later
        exact ⟨b, by simp [listed], holds⟩

def History.ofDiffs {m : Type → Type} [Monad m] (commits : List CommitInfo)
    (diffs : CommitInfo → DiffAnswer) : History m where
  commits := pure (.ok commits)
  diff commit := pure (diffs commit)

/-- What a commit comes to in so many milliseconds. -/
def commitOutcome (config : Config) (diffs : CommitInfo → DiffAnswer) (commit : CommitInfo)
    (millis : Nat) : Except Fault CommitOutcome :=
  if !config.filter.acceptsCommit commit then .ok .filtered
  else
    match diffs commit with
    | .unavailable message => .ok (.failed commit.id message)
    | .crashed message => .error (.crashed message)
    | .files files =>
      (patchOutcomes config commit.id files).map (.ofPatches config commit.id millis)

variable {config : Config} {commits : List CommitInfo} {diffs : CommitInfo → DiffAnswer}

/-- What a commit comes to depends on the world through the answer of the history and the clock. -/
theorem run_processCommit_answer {W : Type} (history : History (StateM W)) (clock : StateM W Nat)
    (commit : CommitInfo) (w : W) :
    ∃ millis, ((processCommit config history clock commit).run w).1 =
      commitOutcome config (fun _ => ((history.diff commit).run (clock.run w).2).1) commit
        millis := by
  let asked := (history.diff commit).run (clock.run w).2
  refine ⟨elapsed (clock.run w).1 (clock.run asked.2).1, ?_⟩
  rw [processCommit, commitOutcome, run_bind]
  split
  · rfl
  · rw [run_bind]
    cases asked.1 with
    | unavailable message => rfl
    | crashed message => rfl
    | files files =>
        dsimp only
        rw [patchOutcomes]
        cases built : CommitDiff.build commit.id files config.filter with
        | error fault => rfl
        | ok d =>
            have named : d.commit = commit.id := CommitDiff.commit_of_build built
            exact congrArg Except.ok (named ▸ CommitOutcome.ofDiff_eq config _ d)

theorem run_processCommit {W : Type} (clock : StateM W Nat) (commit : CommitInfo) (w : W) :
    ∃ millis, ((processCommit config (.ofDiffs commits diffs) clock commit).run w).1 =
      commitOutcome config diffs commit millis :=
  run_processCommit_answer (.ofDiffs commits diffs) clock commit w

/-- A result that processing the commit can have, by some clock. -/
def Mined (config : Config) (diffs : CommitInfo → DiffAnswer) (commit : CommitInfo)
    (result : MiningResult) : Prop :=
  ∃ (W : Type) (clock : StateM W Nat) (w : W) (outcome : CommitOutcome),
    ((processCommit config (.ofDiffs [] diffs) clock commit).run w).1 = .ok outcome ∧
      outcome.result = result

theorem Mined.eq {commit : CommitInfo} {result : MiningResult}
    (mined : Mined config diffs commit result) :
    ∃ millis outcome, commitOutcome config diffs commit millis = .ok outcome ∧
      outcome.result = result := by
  obtain ⟨W, clock, w, outcome, run, rfl⟩ := mined
  obtain ⟨millis, same⟩ := @run_processCommit config [] diffs W clock commit w
  exact ⟨millis, outcome, same.symm.trans run, rfl⟩

/-- Only times are read off the clock. -/
theorem timeless_commitOutcome (commit : CommitInfo) (millis millis' : Nat) :
    (commitOutcome config diffs commit millis).map (·.result.timeless) =
      (commitOutcome config diffs commit millis').map (·.result.timeless) := by
  rw [commitOutcome, commitOutcome]
  split
  · rfl
  · cases diffs commit with
    | unavailable message => rfl
    | crashed message => rfl
    | files files =>
        dsimp only
        cases patchOutcomes config commit.id files <;> rfl

theorem Mined.timeless_eq {commit : CommitInfo} {r s : MiningResult}
    (first : Mined config diffs commit r) (second : Mined config diffs commit s) :
    r.timeless = s.timeless := by
  obtain ⟨millis, outcome, run, rfl⟩ := first.eq
  obtain ⟨millis', outcome', run', rfl⟩ := second.eq
  have same := @timeless_commitOutcome config diffs commit millis millis'
  rw [run, run'] at same
  exact Except.ok.inj same

/-- The time of the run is not a matter of its commits. -/
theorem wallMillis_of_commitOutcome {commit : CommitInfo} {millis : Nat} {outcome : CommitOutcome}
    (run : commitOutcome config diffs commit millis = .ok outcome) :
    outcome.result.wallMillis = 0 := by
  rw [commitOutcome] at run
  split at run
  · cases run
    rfl
  · cases answer : diffs commit with
    | unavailable message =>
        rw [answer] at run
        cases run
        rfl
    | crashed message =>
        rw [answer] at run
        cases run
    | files files =>
        rw [answer] at run
        dsimp only at run
        cases built : patchOutcomes config commit.id files with
        | error fault =>
            rw [built] at run
            cases run
        | ok patches =>
            rw [built] at run
            cases run
            rfl

theorem Mined.wallMillis {commit : CommitInfo} {r : MiningResult}
    (mined : Mined config diffs commit r) : r.wallMillis = 0 := by
  obtain ⟨millis, outcome, run, rfl⟩ := mined.eq
  exact wallMillis_of_commitOutcome run

theorem timeless_eq_of_mined {rs ss : List MiningResult}
    (first : List.Forall₂ (Mined config diffs) commits rs)
    (second : List.Forall₂ (Mined config diffs) commits ss) :
    rs.map MiningResult.timeless = ss.map MiningResult.timeless := by
  induction first generalizing ss with
  | nil =>
      cases second
      rfl
  | cons mined _ ih =>
      obtain _ | ⟨minedToo, rest⟩ := second
      rw [List.map_cons, List.map_cons, mined.timeless_eq minedToo, ih rest]

/-! The results of a batch and those of a run. -/

section Run

variable {W : Type} {clock : StateM W Nat} {sink : Sink (StateM W)}

/-- A commit was processed, in some state of the world. -/
def Processed (config : Config) (history : History (StateM W)) (clock : StateM W Nat)
    (commit : CommitInfo) (outcome : CommitOutcome) : Prop :=
  ∃ w, ((processCommit config history clock commit).run w).1 = .ok outcome

/-- Commits that are mined one after the other have an outcome each; the results are added up, and
the texts stand one behind the other. -/
theorem outcomes_of_processCommits {history : History (StateM W)} (listed : List CommitInfo)
    {r result : MiningResult} {written lineGraph : String} {w : W}
    (run : ((processCommits config history clock r written listed).run w).1 =
      .ok (result, lineGraph)) :
    ∃ outcomes, List.Forall₂ (Processed config history clock) listed outcomes ∧
      r.appendAll (outcomes.map (·.result)) = .ok result ∧
        lineGraph = (outcomes.map (·.lineGraph)).foldl (· ++ ·) written := by
  induction listed generalizing r written w with
  | nil =>
      cases run
      exact ⟨[], .nil, rfl, rfl⟩
  | cons commit rest ih =>
      rw [processCommits, run_bind] at run
      cases processed : ((processCommit config history clock commit).run w).1 with
      | error fault =>
          rw [processed] at run
          cases run
      | ok outcome =>
          simp only [processed] at run
          cases added : r.append outcome.result with
          | error fault =>
              rw [added] at run
              cases run
          | ok sum =>
              rw [added] at run
              obtain ⟨outcomes, each, total, text⟩ := ih run
              refine ⟨outcome :: outcomes, .cons ⟨w, processed⟩ each, ?_, text⟩
              rw [List.map_cons, MiningResult.appendAll, List.foldlM_cons, added]
              exact total

theorem mined_of_processCommits (listed : List CommitInfo) {r result : MiningResult}
    {written lineGraph : String} {w : W}
    (run : ((processCommits config (.ofDiffs commits diffs) clock r written listed).run w).1 =
      .ok (result, lineGraph)) :
    ∃ rs, List.Forall₂ (Mined config diffs) listed rs ∧ r.appendAll rs = .ok result := by
  obtain ⟨outcomes, each, total, -⟩ := outcomes_of_processCommits listed run
  refine ⟨outcomes.map (·.result), List.forall₂_map_right_iff.mpr (each.imp ?_), total⟩
  rintro commit outcome ⟨w, processed⟩
  exact ⟨W, clock, w, outcome, processed, rfl⟩

/-- An attempt that meets no fault ends with what the sink says to the results of the commits. -/
theorem attempt_cases {history : History (StateM W)} {batch : Batch} {attempt : Attempt}
    (made : Attempts config history clock sink batch attempt) :
    (∃ fault, attempt = .error fault) ∨
      ∃ w w' sum lineGraph,
        ((processCommits config history clock .empty "" batch.commits).run w).1 =
            .ok (sum, lineGraph) ∧
          attempt = .ok (((sink.writeBatch batch.id lineGraph sum).run w').1.map fun _ => sum) := by
  obtain ⟨w, rfl⟩ := made
  rw [processBatch, run_bind]
  cases processed : ((processCommits config history clock .empty "" batch.commits).run w).1 with
  | error fault => exact .inl ⟨fault, rfl⟩
  | ok mined =>
      obtain ⟨sum, lineGraph⟩ := mined
      refine .inr ⟨w, ((processCommits config history clock .empty "" batch.commits).run w).2, sum,
        lineGraph, processed, ?_⟩
      dsimp only
      rw [run_bind]
      cases ((sink.writeBatch batch.id lineGraph sum).run _).1 <;> rfl

/-- A batch that is done has the result of processing its commits. -/
theorem processed_of_attempt {history : History (StateM W)} {batch : Batch}
    {result : MiningResult} (made : Attempts config history clock sink batch (.ok (.ok result))) :
    ∃ w lineGraph, ((processCommits config history clock .empty "" batch.commits).run w).1 =
      .ok (result, lineGraph) := by
  obtain ⟨fault, failed⟩ | ⟨w, w', sum, lineGraph, processed, written⟩ := attempt_cases made
  · cases failed
  · cases answer : ((sink.writeBatch batch.id lineGraph sum).run w').1 with
    | error e =>
        rw [answer] at written
        cases written
    | ok accepted =>
        rw [answer] at written
        cases written
        exact ⟨w, lineGraph, processed⟩

theorem mined_of_attempts {batch : Batch} {result : MiningResult}
    (made : Attempts config (.ofDiffs commits diffs) clock sink batch (.ok (.ok result))) :
    ∃ rs, List.Forall₂ (Mined config diffs) batch.commits rs ∧
      result = MiningResult.mergeAll rs := by
  obtain ⟨w, lineGraph, processed⟩ := processed_of_attempt made
  obtain ⟨rs, each, total⟩ := mined_of_processCommits batch.commits processed
  exact ⟨rs, each, (MiningResult.empty_appendAll_eq_ok_iff.mp total).2⟩

theorem Processed.wallMillis {history : History (StateM W)} {commit : CommitInfo}
    {outcome : CommitOutcome} (processed : Processed config history clock commit outcome) :
    outcome.result.wallMillis = 0 := by
  obtain ⟨w, run⟩ := processed
  obtain ⟨millis, same⟩ := run_processCommit_answer history clock commit w
  exact wallMillis_of_commitOutcome (same.symm.trans run)

/-- No batch counts the time of the run. -/
theorem wallMillis_of_attempt {history : History (StateM W)} {batch : Batch}
    {result : MiningResult} (made : Attempts config history clock sink batch (.ok (.ok result))) :
    result.wallMillis = 0 := by
  obtain ⟨w, lineGraph, processed⟩ := processed_of_attempt made
  obtain ⟨outcomes, each, total, -⟩ := outcomes_of_processCommits batch.commits processed
  obtain ⟨-, rfl⟩ := MiningResult.empty_appendAll_eq_ok_iff.mp total
  refine MiningResult.wallMillis_mergeAll (List.forall_mem_map.mpr fun outcome member => ?_)
  obtain ⟨commit, -, processed⟩ := exists_of_forall₂ each.flip member
  exact Processed.wallMillis processed

theorem not_refused {history : History (StateM W)}
    (accepts : ∀ id lineGraph result w,
      ((sink.writeBatch id lineGraph result).run w).1 = .ok ()) {batch : Batch} {e : SinkError} :
    ¬ Attempts config history clock sink batch (.ok (.error e)) := by
  intro made
  obtain ⟨fault, failed⟩ | ⟨w, w', sum, lineGraph, -, written⟩ := attempt_cases made
  · cases failed
  · rw [accepts] at written
    cases written

end Run

end Variability.Mining
