import Mathlib.Data.List.Perm.Subperm
import Variability.Proofs.Mining.Cancellation
import Variability.Proofs.Mining.Faults
import Variability.Proofs.MiningResult.Tally

/-!
The books of a run. What is recorded about a commit is told from what became of its accepted files,
and the results of a batch and of a run are in balance with the files of all commits in them, for
every history, sink, clock and oracle.
-/

namespace Variability

namespace Mining

/-! One file. -/

namespace PatchOutcome

theorem classified_ofTree (config : Config) (t : Tree) : (ofTree config t).Classified := by
  simp only [ofTree]
  split
  · rfl
  · next memory _ =>
    split
    · next found classified => exact Query.length_eq_of_mapM t.codeNodes classified
    · rfl

theorem OfFile.classified {config : Config} {commit : String} {d : FileDiff} {p : PatchOutcome}
    (made : OfFile config commit d p) : p.Classified := by
  obtain ⟨tree, -, rfl⟩ := made
  cases tree with
  | error e => rfl
  | ok t => exact classified_ofTree config _

end PatchOutcome

/-- How far a file gets. -/
def fileState (config : Config) (commit : String) (d : FileDiff) : Except Fault UnitState :=
  (PatchDiff.ofFile commit d).map fun p => (PatchOutcome.ofPatch config p).state

theorem PatchOutcome.OfFile.fileState_eq {config : Config} {commit : String} {d : FileDiff}
    {p : PatchOutcome} (made : OfFile config commit d p) :
    fileState config commit d = .ok p.state := by
  obtain ⟨tree, parsed, rfl⟩ := made
  rw [fileState, PatchDiff.ofFile, parsed]
  rfl

/-! One commit. -/

open PatchOutcome

theorem get?_patternCounts (commit : String) (millis : Nat) (patches : List PatchOutcome)
    (name : String) :
    (CommitOutcome.resultOf commit millis patches).patternCounts.get? name =
      if (patternsOf patches).count name = 0 then none
      else some ⟨(patternsOf patches).count name, 1⟩ := by
  change ((tally (patternsOf patches)).filterMap fun n => some (PatternCount.mk n 1)).get? name = _
  rw [KeyMap.get?_filterMap, get?_tally]
  split <;> rfl

/-- Only exported trees have matches. -/
theorem treesOf_ne_nil {patches : List PatchOutcome} {name : String}
    (matched : name ∈ patternsOf patches) : treesOf patches ≠ [] := by
  obtain ⟨p, listed, found⟩ := List.mem_flatMap.mp matched
  cases p with
  | exported tree matches_ =>
      exact List.ne_nil_of_mem (List.mem_filterMap.mpr ⟨_, listed, rfl⟩)
  | rejected criterion => cases found
  | failed kind => cases found

theorem balances_resultOf (commit : String) (millis : Nat) {patches : List PatchOutcome}
    (classified : ∀ p ∈ patches, p.Classified) :
    (CommitOutcome.resultOf commit millis patches).Balances patches where
  commits := by
    simp only [CommitOutcome.resultOf, MiningResult.empty]
    split <;> rfl
  files := (List.length_map _).symm
  terminal := by
    intro s member
    obtain ⟨p, -, rfl⟩ := List.mem_map.mp member
    exact p.isTerminal_state
  trees := rfl
  exported := length_filterMap_eq_count isSome_tree?_iff patches
  rejected := (total_tally _).trans (length_filterMap_eq_count isSome_filterHit?_iff patches)
  failed := (total_tally _).trans (length_filterMap_eq_count isSome_error?_iff patches)
  occurrences := by
    rw [← length_patternsOf classified, ← total_tally, KeyMap.total_eq_weigh]
    exact KeyMap.weigh_filterMap (fun n => ⟨n, 1⟩) PatternCount.occurrences _
  nodes := by
    change (tally _).total = _
    rw [total_tally, List.length_map, List.length_flatMap]
    simp only [length_exportedEdits]
    rfl
  shares := by
    intro name count found
    rw [get?_patternCounts] at found
    split at found
    · cases found
    · next occurs =>
      obtain rfl := Option.some.inj found
      have exported : treesOf patches ≠ [] :=
        treesOf_ne_nil (List.count_pos_iff.mp (Nat.pos_of_ne_zero occurs))
      have once : (CommitOutcome.resultOf commit millis patches).exportedCommits = 1 :=
        if_neg fun none => exported (List.isEmpty_iff.mp none)
      exact ⟨Nat.pos_of_ne_zero occurs, once.ge⟩

/-- The files of a commit that are mined, given what the history answers. -/
def Config.acceptedFiles (config : Config) (commit : CommitInfo) : DiffAnswer → List FileDiff
  | .files files =>
    if config.filter.acceptsCommit commit then files.filter config.filter.acceptsFile else []
  | .unavailable _ | .crashed _ => []

/-- The record of one commit. The commit is of one kind, every accepted file is on record with what
became of it alone, and the counts are those of the files. -/
structure CommitOutcome.Recorded (outcome : CommitOutcome) (config : Config) (commit : CommitInfo)
    (accepted : List FileDiff) (patches : List PatchOutcome) : Prop where
  made : List.Forall₂ (PatchOutcome.OfFile config commit.id) accepted patches
  once : outcome.result.totalCommits = 1
  kind : [outcome.result.filteredCommits, outcome.result.failedCommits,
    outcome.result.emptyCommits, outcome.result.exportedCommits].Perm [1, 0, 0, 0]
  balances : outcome.result.Balances patches
  states : outcome.states = statesOf patches
  each : accepted.map (fileState config commit.id) = outcome.states.map .ok
  patterns : ∀ name, outcome.result.patternCounts.get? name =
    if (patternsOf patches).count name = 0 then none
    else some ⟨(patternsOf patches).count name, 1⟩

theorem map_fileState {config : Config} {commit : String} {accepted : List FileDiff}
    {patches : List PatchOutcome}
    (made : List.Forall₂ (PatchOutcome.OfFile config commit) accepted patches) :
    accepted.map (fileState config commit) = (statesOf patches).map .ok := by
  induction made with
  | nil => rfl
  | cons first _ ih =>
      rw [statesOf] at ih ⊢
      rw [List.map_cons, List.map_cons, List.map_cons, first.fileState_eq, ih]

theorem recorded_filtered (config : Config) (commit : CommitInfo) :
    CommitOutcome.filtered.Recorded config commit [] [] where
  made := .nil
  once := rfl
  kind := .refl _
  balances := { MiningResult.balances_empty with commits := rfl }
  states := rfl
  each := rfl
  patterns _ := rfl

theorem recorded_failed (config : Config) (commit : CommitInfo) (message : String) :
    (CommitOutcome.failed commit.id message).Recorded config commit [] [] where
  made := .nil
  once := rfl
  kind := .swap _ _ _
  balances := { MiningResult.balances_empty with commits := rfl }
  states := rfl
  each := rfl
  patterns _ := rfl

theorem recorded_ofPatches {config : Config} {commit : CommitInfo} (millis : Nat)
    {accepted : List FileDiff} {patches : List PatchOutcome}
    (made : List.Forall₂ (PatchOutcome.OfFile config commit.id) accepted patches) :
    (CommitOutcome.ofPatches config commit.id millis patches).Recorded config commit accepted
      patches where
  made := made
  once := rfl
  kind := by
    simp only [CommitOutcome.ofPatches, CommitOutcome.resultOf, MiningResult.empty]
    split <;> decide
  balances := balances_resultOf commit.id millis fun p listed => by
    obtain ⟨d, -, became⟩ := exists_of_forall₂ made.flip listed
    exact PatchOutcome.OfFile.classified became
  states := rfl
  each := map_fileState made
  patterns := get?_patternCounts commit.id millis patches

theorem writeTrees_nil (options : LineGraph.Options) (commit : String) :
    writeTrees options commit [] = "" := by
  rw [writeTrees]
  cases options.shape <;> rfl

theorem recorded_of_commitOutcome {config : Config} {diffs : CommitInfo → DiffAnswer}
    {commit : CommitInfo} {millis : Nat} {outcome : CommitOutcome}
    (run : commitOutcome config diffs commit millis = .ok outcome) :
    ∃ patches, outcome.Recorded config commit (config.acceptedFiles commit (diffs commit))
      patches ∧ outcome.lineGraph = writeTrees config.options commit.id (treesOf patches) := by
  rw [commitOutcome] at run
  cases accepts : config.filter.acceptsCommit commit with
  | false =>
      rw [accepts] at run
      obtain rfl := Except.ok.inj run
      have nothing : config.acceptedFiles commit (diffs commit) = [] := by
        cases diffs commit <;> simp [Config.acceptedFiles, accepts]
      exact ⟨[], nothing ▸ recorded_filtered config commit, (writeTrees_nil _ _).symm⟩
  | true =>
      rw [accepts] at run
      cases answer : diffs commit with
      | unavailable message =>
          rw [answer] at run
          obtain rfl := Except.ok.inj run
          exact ⟨[], recorded_failed config commit message, (writeTrees_nil _ _).symm⟩
      | crashed message =>
          rw [answer] at run
          cases run
      | files files =>
          rw [answer] at run
          rcases patchOutcomes_cases config commit.id files with
            ⟨-, patches, mined, made⟩ | ⟨-, wide⟩
          · rw [Bool.not_true, if_neg (by simp)] at run
            simp only [mined] at run
            obtain rfl := Except.ok.inj run
            refine ⟨patches, ?_, rfl⟩
            rw [Config.acceptedFiles, if_pos accepts]
            exact recorded_ofPatches millis made
          · simp [wide, Except.map] at run

section Run

variable {W : Type} {config : Config} {history : History (StateM W)} {clock : StateM W Nat}
  {sink : Sink (StateM W)}

theorem recorded_of_processCommit {commit : CommitInfo} {w : W} {outcome : CommitOutcome}
    (run : ((processCommit config history clock commit).run w).1 = .ok outcome) :
    ∃ patches, outcome.Recorded config commit
        (config.acceptedFiles commit ((history.diff commit).run (clock.run w).2).1) patches ∧
      outcome.lineGraph = writeTrees config.options commit.id (treesOf patches) := by
  obtain ⟨millis, same⟩ := @run_processCommit_answer config W history clock commit w
  exact recorded_of_commitOutcome (same.symm.trans run)

/-- What became of the accepted files of a commit that was processed in some state of the world. -/
def Became (config : Config) (history : History (StateM W)) (clock : StateM W Nat)
    (commit : CommitInfo) (patches : List PatchOutcome) : Prop :=
  ∃ w outcome, ((processCommit config history clock commit).run w).1 = .ok outcome ∧
    outcome.Recorded config commit
      (config.acceptedFiles commit ((history.diff commit).run (clock.run w).2).1) patches

/-- A result in balance with the files of some commits. -/
def Books (config : Config) (history : History (StateM W)) (clock : StateM W Nat)
    (commits : List CommitInfo) (result : MiningResult) : Prop :=
  ∃ parts, List.Forall₂ (Became config history clock) commits parts ∧
    result.Balances parts.flatten

theorem books_empty : Books config history clock [] .empty :=
  ⟨[], .nil, MiningResult.balances_empty⟩

theorem Books.withWallMillis {commits : List CommitInfo} {result : MiningResult}
    (books : Books config history clock commits result) (wallMillis : Nat) :
    Books config history clock commits { result with wallMillis } := by
  obtain ⟨parts, became, balances⟩ := books
  exact ⟨parts, became, balances.withWallMillis wallMillis⟩

theorem Books.merge {commits others : List CommitInfo} {r s : MiningResult}
    (first : Books config history clock commits r) (second : Books config history clock others s) :
    Books config history clock (commits ++ others) (r.merge s) := by
  obtain ⟨parts, became, balances⟩ := first
  obtain ⟨further, becameToo, balancesToo⟩ := second
  refine ⟨parts ++ further, List.rel_append became becameToo, ?_⟩
  rw [List.flatten_append]
  exact balances.merge balancesToo

/-- The outcomes of commits come from their files: the results balance, and the texts are those of
the exported trees. -/
theorem parts_of_outcomes {listed : List CommitInfo} {outcomes : List CommitOutcome}
    (each : List.Forall₂ (Processed config history clock) listed outcomes) :
    ∃ parts, List.Forall₂ (Became config history clock) listed parts ∧
      (MiningResult.mergeAll (outcomes.map (·.result))).Balances parts.flatten ∧
        outcomes.map (·.lineGraph) = List.zipWith
          (fun commit patches => writeTrees config.options commit.id (treesOf patches)) listed
            parts := by
  induction each with
  | nil => exact ⟨[], .nil, MiningResult.balances_empty, rfl⟩
  | cons processed _ ih =>
      obtain ⟨w, processed⟩ := processed
      obtain ⟨patches, recorded, text⟩ := recorded_of_processCommit processed
      obtain ⟨parts, became, balances, texts⟩ := ih
      refine ⟨patches :: parts, .cons ⟨w, _, processed, recorded⟩ became,
        recorded.balances.merge balances, ?_⟩
      rw [List.map_cons, text, texts, List.zipWith_cons_cons]

theorem books_of_processCommits {listed : List CommitInfo} {result : MiningResult}
    {lineGraph : String} {w : W}
    (run : ((processCommits config history clock .empty "" listed).run w).1 =
      .ok (result, lineGraph)) :
    Books config history clock listed result := by
  obtain ⟨outcomes, each, total, -⟩ := outcomes_of_processCommits listed run
  obtain ⟨-, rfl⟩ := MiningResult.empty_appendAll_eq_ok_iff.mp total
  obtain ⟨parts, became, balances, -⟩ := parts_of_outcomes each
  exact ⟨parts, became, balances⟩

theorem books_of_attempt {batch : Batch} {result : MiningResult}
    (made : Attempts config history clock sink batch (.ok (.ok result))) :
    Books config history clock batch.commits result := by
  obtain ⟨w, lineGraph, processed⟩ := processed_of_attempt made
  exact books_of_processCommits processed

/-! The total. -/

/-- The batches of the reports that have a result. -/
def doneBatches (batches : List Batch) (entries : List (Nat × BatchReport)) : List Batch :=
  ((entries.filter (·.2.isDone)).map Prod.fst).filterMap (batches[·]?)

theorem filterMap_range (batches : List Batch) :
    (List.range batches.length).filterMap (batches[·]?) = batches := by
  induction batches with
  | nil => rfl
  | cons batch batches ih =>
      rw [List.length_cons, List.range_succ_eq_map, List.filterMap_cons, List.filterMap_map]
      exact congrArg (batch :: ·) ih

theorem subperm_doneBatches {batches : List Batch} {entries : List (Nat × BatchReport)}
    (unique : (entries.map Prod.fst).Nodup)
    (inside : ∀ i ∈ entries.map Prod.fst, i < batches.length) :
    (doneBatches batches entries).Subperm batches := by
  have fewer : ((entries.filter (·.2.isDone)).map Prod.fst).Sublist (entries.map Prod.fst) :=
    List.filter_sublist.map Prod.fst
  obtain ⟨positions, same, part⟩ := (unique.sublist fewer).subperm fun i member =>
    List.mem_range.mpr (inside i (fewer.subset member))
  refine ⟨positions.filterMap (batches[·]?), same.filterMap _, ?_⟩
  have parts := part.filterMap (batches[·]?)
  rwa [filterMap_range] at parts

theorem perm_doneBatches {batches : List Batch} {entries : List (Nat × BatchReport)}
    (once : (entries.map Prod.fst).Perm (List.range batches.length))
    (done : ∀ entry ∈ entries, entry.2.isDone = true) :
    (doneBatches batches entries).Perm batches := by
  have positions := once.filterMap (batches[·]?)
  rw [filterMap_range] at positions
  rwa [doneBatches, List.filter_eq_self.mpr done]

theorem books_of_entries {batches : List Batch} (entries : List (Nat × BatchReport))
    (genuine : ∀ entry ∈ entries, ∃ batch, batches[entry.1]? = some batch ∧
      entry.2.Genuine (Attempts config history clock sink) batch) :
    Books config history clock ((doneBatches batches entries).flatMap (·.commits))
      (MiningResult.mergeAll (MiningOutcome.doneResults (entries.map Prod.snd))) := by
  induction entries with
  | nil => exact books_empty
  | cons entry entries ih =>
      obtain ⟨⟨batch, here, report⟩, rest⟩ := List.forall_mem_cons.mp genuine
      have others := ih rest
      obtain ⟨i, answer⟩ := entry
      cases answer with
      | done result =>
          have opened : doneBatches batches ((i, .done result) :: entries) =
              batch :: doneBatches batches entries := by
            rw [doneBatches, List.filter_cons_of_pos rfl, List.map_cons,
              List.filterMap_cons_some here]
            rfl
          rw [opened, List.flatMap_cons]
          exact (books_of_attempt report.attempt).merge others
      | failed failure => exact others
      | skipped id => exact others

theorem Concluded.folded {s : Progress} (concluded : Concluded s)
    (unfaulted : ∀ fault, s.verdict ≠ some (.error fault)) :
    (s.taken.map Prod.snd).foldlM MiningOutcome.collect .empty = .ok s.outcome := by
  rw [Concluded] at concluded
  cases verdict : s.verdict with
  | none =>
      rw [verdict] at concluded
      exact concluded.1
  | some settled =>
      cases settled with
      | error fault => exact absurd verdict (unfaulted fault)
      | ok value =>
          rw [verdict] at concluded
          exact concluded.1

/-- In every state of a run what the collector has is in balance with the batches that are done, and
so is the total at the end. -/
structure Audited (config : Config) (history : History (StateM W)) (clock : StateM W Nat)
    (batches : List Batch) (s : Progress) : Prop where
  part : (doneBatches batches s.taken).Subperm batches
  collected : Books config history clock ((doneBatches batches s.taken).flatMap (·.commits))
    s.outcome.result
  totals : ∀ total ∈ s.totals,
    Books config history clock ((doneBatches batches s.taken).flatMap (·.commits)) total
  outcome : ∀ outcome, s.verdict = some (.ok (.ok outcome)) →
    Books config history clock ((doneBatches batches s.taken).flatMap (·.commits)) outcome.result
  complete : ∀ outcome, s.verdict = some (.ok (.ok outcome)) → outcome.isComplete →
    (doneBatches batches s.taken).Perm batches

theorem audited_of_run {batches : List Batch} {s : Progress}
    (run : Steps batches (Attempts config history clock sink) (.initial batches) s)
    (unfaulted : ∀ fault, s.verdict ≠ some (.error fault)) :
    Audited config history clock batches s := by
  have orderly := orderly_of_run run
  have concluded := concluded_of_run run
  have folded := concluded.folded unfaulted
  obtain ⟨sum, -⟩ := MiningOutcome.foldlM_collect_eq_ok_iff.mp folded
  obtain ⟨-, total⟩ := MiningResult.empty_appendAll_eq_ok_iff.mp sum
  have collected : Books config history clock
      ((doneBatches batches s.taken).flatMap (·.commits)) s.outcome.result := by
    rw [total]
    exact books_of_entries s.taken fun entry member =>
      orderly.genuine _ _ (.inr (List.mem_append_right _ member))
  have genuine : ∀ entry ∈ s.taken, entry.1 < batches.length := by
    intro entry member
    obtain ⟨batch, here, -⟩ := orderly.genuine _ _ (.inr (List.mem_append_right _ member))
    exact (List.getElem?_eq_some_iff.mp here).1
  -- At the end the outcome is what was collected, up to the time of the run.
  have ending {value : Except MiningError MiningOutcome} (verdict : s.verdict = some (.ok value)) :
      ∃ wallMillis answer, value = (s.outcome.finish wallMillis).settle answer ∧
        s.totals = (s.outcome.finish wallMillis).totals := by
    rw [Concluded, verdict] at concluded
    exact concluded.2.2.2
  refine ⟨subperm_doneBatches ?_ ?_, collected, ?_, ?_, ?_⟩
  · exact orderly.unique.sublist (.map _ (List.sublist_append_right _ _))
  · simpa using genuine
  · intro total member
    obtain ⟨value, verdict⟩ := orderly.totals.2 (List.ne_nil_of_mem member)
    obtain ⟨wallMillis, answer, -, handed⟩ := ending verdict
    rw [handed, MiningOutcome.totals] at member
    split at member
    · obtain rfl := List.mem_singleton.mp member
      exact collected.withWallMillis wallMillis
    · cases member
  · intro outcome verdict
    obtain ⟨wallMillis, answer, settled, -⟩ := ending verdict
    obtain rfl := MiningOutcome.eq_of_settle_eq_ok settled.symm
    exact collected.withWallMillis wallMillis
  · intro outcome verdict complete
    obtain ⟨wallMillis, answer, settled, -⟩ := ending verdict
    obtain rfl := MiningOutcome.eq_of_settle_eq_ok settled.symm
    obtain ⟨_, _, _, finished⟩ := orderly.settled _ verdict
    rw [MiningOutcome.isComplete_finish, MiningOutcome.isComplete_iff_of_foldlM folded] at complete
    exact perm_doneBatches finished.once fun entry member =>
      complete entry.2 (List.mem_map_of_mem member)

/-- The books balance: those of every commit that is processed, those of the commits of a batch, and
those of every run of the workers and of one batch after the other. -/
theorem books_balance (config : Config) (history : History (StateM W)) (clock : StateM W Nat)
    (sink : Sink (StateM W)) :
    (∀ commit w outcome, ((processCommit config history clock commit).run w).1 = .ok outcome →
        ∃ patches, outcome.Recorded config commit
          (config.acceptedFiles commit ((history.diff commit).run (clock.run w).2).1) patches) ∧
      (∀ commits w result lineGraph,
        ((processCommits config history clock .empty "" commits).run w).1 =
          .ok (result, lineGraph) → Books config history clock commits result) ∧
      (∀ batches s, Steps batches (Attempts config history clock sink) (.initial batches) s →
        (∀ fault, s.verdict ≠ some (.error fault)) → Audited config history clock batches s) ∧
      ∀ w outcome, ((mine config history clock sink).run w).1 = .ok (.ok outcome) →
        ∃ (commits : List CommitInfo) (batches done : List Batch),
          (history.commits.run (clock.run w).2).1 = .ok commits ∧
          partition commits config.batchSize = .ok batches ∧ done.Subperm batches ∧
          Books config history clock (done.flatMap (·.commits)) outcome.result ∧
          (outcome.isComplete → done.Perm batches) := by
  refine ⟨fun commit w outcome processed =>
      (recorded_of_processCommit processed).imp fun _ recorded => recorded.1,
    fun commits w result lineGraph => books_of_processCommits,
    fun batches s => audited_of_run, fun w outcome mined => ?_⟩
  rcases steps_mine config history clock sink w with
    ⟨message, -, failed⟩ | ⟨commits, listed, ⟨e, -, failed⟩ | ⟨batches, s, cut, run, verdict⟩⟩
  · cases mined.symm.trans failed
  · cases mined.symm.trans failed
  · rw [mined] at verdict
    have audited := audited_of_run run (by simp [verdict])
    exact ⟨commits, batches, doneBatches batches s.taken, listed, cut, audited.part,
      audited.outcome outcome verdict, audited.complete outcome verdict⟩

end Run

/-- One file with a line of code, and one whose only hunk has no header. -/
theorem books_balance_two_files :
    let files : List FileDiff := [⟨some "a.c", some "a.c", .modified, "@@ -1 +1 @@\n x\n"⟩,
      ⟨some "b.c", some "b.c", .modified, "+#if\n"⟩]
    let history : History (StateM Unit) := .ofDiffs [] fun _ => .files files
    ∃ outcome patches,
      ((processCommit .standard history (pure 0) ⟨"c", 1⟩).run ()).1 = .ok outcome ∧
      outcome.states = [.exported, .failed] ∧
      outcome.Recorded .standard ⟨"c", 1⟩ files patches := by
  intro files history
  have states : (match ((processCommit .standard history (pure 0) ⟨"c", 1⟩).run ()).1 with
      | .ok outcome => decide (outcome.states = [.exported, .failed])
      | .error _ => false) = true := by decide +kernel
  have accepted : Config.standard.acceptedFiles ⟨"c", 1⟩ (.files files) = files := by
    decide +kernel
  cases run : ((processCommit .standard history (pure 0) ⟨"c", 1⟩).run ()).1 with
  | error fault => simp [run] at states
  | ok outcome =>
      obtain ⟨patches, recorded⟩ := (books_balance .standard history (pure 0)
        ⟨fun _ _ _ => pure (.ok ()), fun _ => pure (.ok ())⟩).1 ⟨"c", 1⟩ () outcome run
      refine ⟨outcome, patches, rfl, by simpa [run] using states, ?_⟩
      rw [← accepted]
      exact recorded

end Mining

end Variability
