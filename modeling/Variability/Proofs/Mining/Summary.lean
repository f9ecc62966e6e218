import Variability.CommandLine.Program
import Variability.Proofs.Mining.Bookkeeping
import Variability.Proofs.MiningResult.Snapshot

/-!
The total of a run from its parts. Every batch of a complete run has a result that counts nothing
of the time of the run, and snapshots say all of such results, so those that were written add up to
the total again, in any order, and with them what the command that combines snapshots prints.
-/

namespace Variability

namespace MiningResult

theorem mapM_ofSnapshot {rs : List MiningResult} (presentable : ∀ r ∈ rs, r.Presentable) :
    (rs.map toSnapshot).mapM ofSnapshot = .ok rs := by
  induction rs with
  | nil => rfl
  | cons r rs ih =>
      obtain ⟨first, rest⟩ := List.forall_mem_cons.mp presentable
      rw [List.map_cons, List.mapM_cons, first.ofSnapshot_toSnapshot, ih rest]
      rfl

end MiningResult

namespace CommandLine

variable {W : Type} {host : Host (StateM W)} {limit : Nat} {w : W}

/-- A file that holds the snapshot of a result. -/
def HoldsSnapshot (host : Host (StateM W)) (limit : Nat) (w : W) (path : String)
    (r : MiningResult) : Prop :=
  (readFile host limit path).run w = (.ok r.toSnapshot, w)

theorem run_bind_of_ok {ε α β : Type} {x : ExceptT ε (StateM W) α} {a : α} {w' : W}
    (got : x.run.run w = (.ok a, w')) (f : α → ExceptT ε (StateM W) β) :
    (x >>= f).run.run w = (f a).run.run w' := by
  rw [ExceptT.run_bind, StateT.run_bind, got]
  rfl

/-- Files with snapshots are combined to what the results add up to. -/
theorem run_combine {paths : List String} {rs : List MiningResult}
    (held : List.Forall₂ (HoldsSnapshot host limit w) paths rs)
    (presentable : ∀ r ∈ rs, r.Presentable) (total : MiningResult) :
    (combine host limit total paths).run.run w =
      ((total.appendAll rs).mapError Trouble.fault, w) := by
  induction held generalizing total with
  | nil => rfl
  | @cons path r paths rs first _ ih =>
      obtain ⟨known, rest⟩ := List.forall_mem_cons.mp presentable
      have read : (readSource host limit (.file path)).run.run w = (.ok r.toSnapshot, w) := by
        change (Prod.map (Except.mapError _) id) ((readFile host limit path).run w) = _
        rw [first]
        rfl
      rw [combine, run_bind_of_ok read, known.ofSnapshot_toSnapshot, MiningResult.appendAll,
        List.foldlM_cons]
      dsimp only
      cases total.append r with
      | ok sum => exact ih rest sum
      | error fault => rfl

end CommandLine

namespace Mining

variable {W : Type} {config : Config} {history : History (StateM W)} {clock : StateM W Nat}
  {sink : Sink (StateM W)} {batches : List Batch} {s : Progress}

theorem wallMillis_of_run
    (run : Steps batches (Attempts config history clock sink) (.initial batches) s) :
    ∀ r ∈ MiningOutcome.doneResults (s.taken.map Prod.snd), r.wallMillis = 0 := by
  have orderly := orderly_of_run run
  intro r member
  obtain ⟨report, listed, found⟩ := List.mem_filterMap.mp member
  obtain ⟨⟨i, answer⟩, inside, rfl⟩ := List.mem_map.mp listed
  obtain ⟨batch, -, genuine⟩ := orderly.genuine i answer (.inr (List.mem_append_right _ inside))
  cases answer with
  | done result =>
      cases found
      exact wallMillis_of_attempt genuine.attempt
  | failed | skipped => cases found

/-- A run that hands its total over has a result of every batch, and they add up to the total but
for the time of the run. -/
theorem parts_of_total
    (run : Steps batches (Attempts config history clock sink) (.initial batches) s)
    {total : MiningResult} (handed : total ∈ s.totals) :
    (MiningOutcome.doneResults (s.taken.map Prod.snd)).length = batches.length ∧
      MiningResult.empty.appendAll (MiningOutcome.doneResults (s.taken.map Prod.snd)) =
        .ok { total with wallMillis := 0 } := by
  have orderly := orderly_of_run run
  obtain ⟨value, verdict⟩ := orderly.totals.2 (List.ne_nil_of_mem handed)
  obtain ⟨wallMillis, answer, outcome, settled⟩ := orderly.settled value verdict
  have done : ∀ entry ∈ s.taken, entry.2.isDone = true := by
    by_contra undone
    push Not at undone
    rw [(settled.incomplete undone).1] at handed
    cases handed
  obtain ⟨sum, added, result⟩ := settled.result
  rw [(settled.complete done).1, List.mem_singleton, result] at handed
  subst handed
  have all : (MiningOutcome.doneResults (s.taken.map Prod.snd)).length = s.taken.length := by
    rw [← List.length_map Prod.snd, MiningOutcome.doneResults, List.filterMap_length_eq_length,
      List.forall_mem_map]
    intro entry member
    obtain ⟨result, report⟩ := BatchReport.isDone_iff.mp (done entry member)
    simp [report]
  have still : sum.wallMillis = 0 := by
    obtain ⟨-, rfl⟩ := MiningResult.empty_appendAll_eq_ok_iff.mp added
    exact MiningResult.wallMillis_mergeAll (wallMillis_of_run run)
  refine ⟨?_, by rw [added, ← still]⟩
  rw [all]
  simpa using settled.once.length_eq

/-- Snapshots lose nothing: each is read as the result it was written for, and those of the batches
of a run that hands its total over, in any order, add up to the total but for the time of the run,
also when they are combined from files. -/
theorem snapshots_lossless :
    (∀ r : MiningResult, r.Presentable → MiningResult.ofSnapshot r.toSnapshot = .ok r) ∧
      ∀ (W : Type) (config : Config) (history : History (StateM W)) (clock : StateM W Nat)
        (sink : Sink (StateM W)) (batches : List Batch) (s : Progress),
        Steps batches (Attempts config history clock sink) (.initial batches) s →
        ∀ total ∈ s.totals,
          (∀ r ∈ MiningOutcome.doneResults (s.taken.map Prod.snd), r.Presentable) →
          ∀ rs : List MiningResult, rs.Perm (MiningOutcome.doneResults (s.taken.map Prod.snd)) →
            rs.length = batches.length ∧
              (∃ read, (rs.map MiningResult.toSnapshot).mapM MiningResult.ofSnapshot = .ok read ∧
                MiningResult.empty.appendAll read = .ok { total with wallMillis := 0 }) ∧
              ∀ (V : Type) (host : CommandLine.Host (StateM V)) (limit : Nat) (v : V)
                (paths : List String),
                List.Forall₂ (CommandLine.HoldsSnapshot host limit v) paths rs →
                (CommandLine.combine host limit .empty paths).run.run v =
                  (.ok { total with wallMillis := 0 }, v) := by
  refine ⟨fun r presentable => presentable.ofSnapshot_toSnapshot, ?_⟩
  intro W config history clock sink batches s run total handed presentable rs perm
  obtain ⟨length, added⟩ := parts_of_total run handed
  rw [← MiningResult.appendAll_perm perm] at added
  have presentable : ∀ r ∈ rs, r.Presentable := fun r member =>
    presentable r (perm.mem_iff.mp member)
  refine ⟨perm.length_eq.trans length, ⟨rs, MiningResult.mapM_ofSnapshot presentable, added⟩, ?_⟩
  intro V host limit v paths held
  rw [CommandLine.run_combine held presentable, added]
  rfl

/-- A commit without a diff and one whose diff is empty, in a batch each. -/
theorem snapshots_lossless_two_batches :
    let first : Batch := ⟨0, "a", [⟨"a", 1⟩]⟩
    let second : Batch := ⟨1, "b", [⟨"b", 1⟩]⟩
    let history : History (StateM Unit) := .ofDiffs [] fun commit =>
      if commit.id = "a" then .unavailable "gone" else .files []
    let sink : Sink (StateM Unit) := ⟨fun _ _ _ => return .ok (), fun _ => return .ok ()⟩
    let lost : MiningResult := (CommitOutcome.failed "a" "gone").result
    let idle : MiningResult := CommitOutcome.resultOf "b" 0 []
    ∃ s total, Steps [first, second] (Attempts .standard history (pure 0) sink)
        (.initial [first, second]) s ∧ total ∈ s.totals ∧ total.wallMillis = 7 ∧
      MiningResult.ofSnapshot lost.toSnapshot = .ok lost ∧
      ∃ read, [idle.toSnapshot, lost.toSnapshot].mapM MiningResult.ofSnapshot = .ok read ∧
        MiningResult.empty.appendAll read = .ok { total with wallMillis := 0 } := by
  intro first second history sink lost idle
  have lostMade : Attempts .standard history (pure 0) sink first (.ok (.ok lost)) := ⟨(), rfl⟩
  have idleMade : Attempts .standard history (pure 0) sink second (.ok (.ok idle)) := ⟨(), rfl⟩
  have gone : ∀ c ∈ "gone".toList.getLast?, Text.isBlank c = false := by
    rintro c ⟨⟩
    rfl
  have lostPresentable : lost.Presentable :=
    ⟨by decide, by decide, by decide, by decide, by decide, by decide,
      List.forall_mem_singleton.mpr ⟨by decide, by decide, gone⟩⟩
  have idlePresentable : idle.Presentable :=
    ⟨by decide, by decide, by decide, by decide, by decide, by decide, by decide⟩
  have losing : Steps [first, second] (Attempts .standard history (pure 0) sink)
      (.between 0 2 false []) (.between 1 1 false [(0, .done lost)]) :=
    steps_attempt rfl lostMade
  have idling : Steps [first, second] (Attempts .standard history (pure 0) sink)
      (.between 1 1 false [(0, .done lost)])
      (.between 2 0 false [(0, .done lost), (1, .done idle)]) :=
    steps_attempt rfl idleMade
  let both : Progress := { Progress.between 2 0 false [] with
    taken := [(0, .done lost), (1, .done idle)]
    outcome := { MiningOutcome.empty with result := lost.merge idle } }
  let total : MiningResult := { lost.merge idle with wallMillis := 7 }
  let ended : Progress := { both with
    totals := (both.outcome.finish 7).totals
    verdict := some (.ok ((both.outcome.finish 7).settle (.ok ()))) }
  have collecting : Steps [first, second] (Attempts .standard history (pure 0) sink)
      (.between 2 0 false [(0, .done lost), (1, .done idle)]) both := steps_collect rfl rfl rfl
  have sent : ∀ stage ∈ both.stages, stage = .sent := by simp [both, Progress.between]
  have conclude : Step [first, second] (Attempts .standard history (pure 0) sink) both ended :=
    .close rfl sent rfl 7 (.ok ())
  have run : Steps [first, second] (Attempts .standard history (pure 0) sink)
      (.initial [first, second]) ended :=
    ((losing.trans idling).trans collecting).tail conclude
  have handed : total ∈ ended.totals := by
    simp only [ended, MiningOutcome.totals, MiningOutcome.isComplete_finish]
    exact List.mem_singleton.mpr rfl
  obtain ⟨back, parts⟩ := snapshots_lossless
  obtain ⟨-, added, -⟩ := parts _ _ _ _ _ _ _ run total handed
    (List.forall_mem_cons.mpr ⟨lostPresentable, List.forall_mem_singleton.mpr idlePresentable⟩)
    [idle, lost] (.swap lost idle [])
  exact ⟨ended, total, run, handed, rfl, back lost lostPresentable, added⟩

end Mining

end Variability
