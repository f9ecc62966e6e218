import Mathlib.Algebra.Ring.Nat
import Variability.Proofs.Mining.Sequential

/-!
What holds in every state of a run, whatever the order of its steps: each batch has one report,
nothing is skipped without a failure, and the total is handed over once, when all batches are done.
Every step takes weight off the run, so it comes to its end.
-/

namespace Variability.Mining

variable {batches : List Batch} {attempts : Batch → Attempt → Prop} {s t : Progress}

namespace Progress

theorem getElem?_put {i : Nat} {old : Stage} (stage : s.stages[i]? = some old) (new : Stage)
    (j : Nat) : (s.put i new).stages[j]? = if i = j then some new else s.stages[j]? := by
  obtain ⟨inside, -⟩ := List.getElem?_eq_some_iff.mp stage
  rw [put, List.getElem?_set, if_pos inside]

theorem stage_initial {i : Nat} {stage : Stage}
    (here : (initial batches).stages[i]? = some stage) : stage = .waiting :=
  List.eq_of_mem_replicate (List.mem_of_getElem? here)

theorem not_made_initial {i : Nat} {report : BatchReport} : ¬ (initial batches).Made i report := by
  rintro (stage | member)
  · cases stage_initial stage
  · cases member

theorem reported_take {before after : List (Nat × BatchReport)} {entry : Nat × BatchReport}
    (arrived : s.inFlight = before ++ entry :: after) :
    (before ++ after ++ (s.taken ++ [entry])).Perm s.reported := by
  rw [reported, arrived, ← List.append_assoc]
  refine (List.perm_append_singleton entry _).trans ?_
  rw [List.append_assoc, List.append_assoc, List.cons_append]
  exact List.perm_middle.symm

theorem reported_send (entry : Nat × BatchReport) :
    (s.inFlight ++ [entry] ++ s.taken).Perm (entry :: s.reported) := by
  rw [List.append_assoc]
  exact List.perm_middle

end Progress

/-! What a step does to the reports there are. -/

/-- A step leaves the reports that were made, or a batch is skipped under the flag, or an attempt
at it ends and sets the flag if it failed. -/
theorem Step.made (step : Step batches attempts s t) :
    ((∀ j r, t.Made j r ↔ s.Made j r) ∧ t.cancelled = s.cancelled) ∨
      ∃ i batch report, batches[i]? = some batch ∧
        (∀ j r, t.Made j r ↔ s.Made j r ∨ (j = i ∧ r = report)) ∧
        ((report = .skipped batch.id ∧ s.cancelled = true ∧ t.cancelled = true) ∨
          ∃ attempt, attempts batch attempt ∧ report = .ofAttempt batch attempt ∧
            t.cancelled = (s.cancelled || report.isFailed)) := by
  have ends {i : Nat} {old : Stage} {report : BatchReport} (stage : s.stages[i]? = some old)
      (before : ∀ r, old ≠ .ended r) (j : Nat) (r : BatchReport) :
      (s.put i (.ended report)).Made j r ↔ s.Made j r ∨ (j = i ∧ r = report) := by
    rw [Progress.Made, Progress.Made, s.getElem?_put stage]
    change _ ∨ (j, r) ∈ s.reported ↔ _
    by_cases same : i = j
    · subst same
      have unmade : ¬ old = .ended r := before r
      simp only [if_pos, Option.some.injEq, Stage.ended.injEq, stage, unmade, false_or, true_and]
      rw [or_comm, eq_comm]
    · simp [same, Ne.symm same]
  cases step with
  | @skip i batch here stage flag =>
      exact .inr ⟨i, batch, .skipped batch.id, here, ends stage (by simp), .inl ⟨rfl, flag, flag⟩⟩
  | @finish i batch attempt here stage made =>
      exact .inr ⟨i, batch, .ofAttempt batch attempt, here, ends stage (by simp),
        .inr ⟨attempt, made, rfl, rfl⟩⟩
  | @start i stage flag =>
      refine .inl ⟨fun j r => ?_, rfl⟩
      rw [Progress.Made, Progress.Made, s.getElem?_put stage]
      change _ ∨ (j, r) ∈ s.reported ↔ _
      by_cases same : i = j
      · subst same
        simp [stage]
      · simp [same]
  | @send i report stage =>
      refine .inl ⟨fun j r => ?_, rfl⟩
      change (s.put i .sent).stages[j]? = _ ∨ (j, r) ∈ s.inFlight ++ [(i, report)] ++ s.taken ↔ _
      rw [Progress.Made, s.getElem?_put stage, (s.reported_send (i, report)).mem_iff, List.mem_cons]
      by_cases same : i = j
      · subst same
        simp [stage, eq_comm]
      · simp [same, Ne.symm same]
  | collect _ arrived _ | overflow _ arrived _ =>
      refine .inl ⟨fun j r => or_congr_right ?_, rfl⟩
      exact (s.reported_take arrived).mem_iff
  | close =>
      exact .inl ⟨fun _ _ => .rfl, rfl⟩

theorem Step.reported (step : Step batches attempts s t) :
    t.stages.length = s.stages.length ∧
      ((t.reported.Perm s.reported ∧
          ∀ j : Nat, t.stages[j]? = some Stage.sent ↔ s.stages[j]? = some Stage.sent) ∨
        ∃ i report, s.stages[i]? = some (.ended report) ∧
          t.reported.Perm ((i, report) :: s.reported) ∧
          ∀ j : Nat, t.stages[j]? = some Stage.sent ↔ s.stages[j]? = some Stage.sent ∨ j = i) := by
  have stays {i : Nat} {old new : Stage} (stage : s.stages[i]? = some old) (before : old ≠ .sent)
      (after : new ≠ .sent) (j : Nat) :
      (s.put i new).stages[j]? = some .sent ↔ s.stages[j]? = some .sent := by
    rw [s.getElem?_put stage]
    by_cases same : i = j
    · subst same
      simp [stage, before, after]
    · simp [same]
  cases step with
  | skip _ stage _ | start stage _ | finish _ stage _ =>
      exact ⟨List.length_set, .inl ⟨.rfl, stays stage nofun nofun⟩⟩
  | @send i report stage =>
      refine ⟨List.length_set, .inr ⟨i, report, stage, s.reported_send (i, report), fun j => ?_⟩⟩
      change (s.put i .sent).stages[j]? = _ ↔ _
      rw [s.getElem?_put stage]
      by_cases same : i = j
      · simp [same]
      · simp [same, Ne.symm same]
  | collect _ arrived _ | overflow _ arrived _ =>
      exact ⟨rfl, .inl ⟨s.reported_take arrived, fun _ => .rfl⟩⟩
  | close =>
      exact ⟨rfl, .inl ⟨.rfl, fun _ => .rfl⟩⟩

/-! Three invariants. -/

/-- The reports that were sent, each once, are those of the batches that are through. -/
structure Accounted (batches : List Batch) (s : Progress) : Prop where
  length : s.stages.length = batches.length
  unique : (s.reported.map Prod.fst).Nodup
  sent : ∀ i, i ∈ s.reported.map Prod.fst ↔ s.stages[i]? = some .sent

theorem accounted_initial : Accounted batches (.initial batches) where
  length := List.length_replicate
  unique := .nil
  sent i := by
    constructor
    · intro member
      cases member
    · intro stage
      cases Progress.stage_initial stage

theorem Accounted.step (accounted : Accounted batches s) (step : Step batches attempts s t) :
    Accounted batches t := by
  obtain ⟨length, ⟨perm, same⟩ | ⟨i, report, stage, perm, more⟩⟩ := step.reported
  · refine ⟨length.trans accounted.length, ?_, fun i => ?_⟩
    · exact (perm.map Prod.fst).nodup_iff.mpr accounted.unique
    · rw [same, ← accounted.sent, (perm.map Prod.fst).mem_iff]
  · -- The worker still holds this report, so none of its batch was sent before.
    have unsent : i ∉ s.reported.map Prod.fst := by
      rw [accounted.sent, stage]
      simp
    refine ⟨length.trans accounted.length, ?_, fun j => ?_⟩
    · exact (perm.map Prod.fst).nodup_iff.mpr (List.nodup_cons.mpr ⟨unsent, accounted.unique⟩)
    · rw [more, ← accounted.sent, (perm.map Prod.fst).mem_iff, List.map_cons, List.mem_cons,
        or_comm]

/-- Every report is one its batch can have, and the flag is set by failures and nothing else. -/
structure Honest (batches : List Batch) (attempts : Batch → Attempt → Prop) (s : Progress) :
    Prop where
  genuine : ∀ i report, s.Made i report →
    ∃ batch, batches[i]? = some batch ∧ report.Genuine attempts batch
  flagged : s.cancelled = true ↔ ∃ i failure, s.Made i (.failed failure)
  skipped : ∀ i id, s.Made i (.skipped id) → s.cancelled = true

theorem honest_initial : Honest batches attempts (.initial batches) where
  genuine _ _ made := (Progress.not_made_initial made).elim
  flagged := by
    refine ⟨nofun, ?_⟩
    rintro ⟨i, failure, made⟩
    exact (Progress.not_made_initial made).elim
  skipped _ _ made := (Progress.not_made_initial made).elim

theorem BatchReport.ofAttempt_ne_skipped {batch : Batch} {attempt : Attempt} {id : String} :
    BatchReport.ofAttempt batch attempt ≠ .skipped id := by
  rcases attempt with fault | e | result <;> nofun

theorem Honest.step (honest : Honest batches attempts s) (step : Step batches attempts s t) :
    Honest batches attempts t := by
  obtain ⟨made, flag⟩ | ⟨i, batch, report, here, made, reason⟩ := step.made
  · refine ⟨fun j r => ?_, ?_, fun j id => ?_⟩
    · rw [made]
      exact honest.genuine j r
    · simp only [flag, made]
      exact honest.flagged
    · rw [made, flag]
      exact honest.skipped j id
  · refine ⟨fun j r madeNow => ?_, ?_, fun j id madeNow => ?_⟩
    · obtain madeBefore | ⟨rfl, rfl⟩ := (made j r).mp madeNow
      · exact honest.genuine j r madeBefore
      · refine ⟨batch, here, ?_⟩
        obtain ⟨skipped, -⟩ | ⟨attempt, allowed, ended, -⟩ := reason
        · exact .inl skipped
        · exact .inr ⟨attempt, allowed, ended⟩
    · -- A failure was there before, or it is the new report.
      have failures : (∃ j failure, t.Made j (.failed failure)) ↔
          s.cancelled = true ∨ report.isFailed = true := by
        rw [honest.flagged, BatchReport.isFailed_iff]
        simp only [made, exists_or, exists_and_left, exists_eq_left]
        simp only [eq_comm]
      rw [failures]
      obtain ⟨rfl, before, after⟩ | ⟨attempt, -, -, after⟩ := reason
      · simp [before, after]
      · rw [after, Bool.or_eq_true]
    · obtain madeBefore | ⟨rfl, rfl⟩ := (made j _).mp madeNow
      · have before := honest.skipped j id madeBefore
        obtain ⟨-, -, after⟩ | ⟨attempt, -, -, after⟩ := reason
        · exact after
        · rw [after, before, Bool.true_or]
      · obtain ⟨-, -, after⟩ | ⟨attempt, -, ended, -⟩ := reason
        · exact after
        · exact (BatchReport.ofAttempt_ne_skipped ended.symm).elim

/-- The outcome holds what was taken in, and the total is handed over at the end or never. -/
def Concluded (s : Progress) : Prop :=
  let folded := (s.taken.map Prod.snd).foldlM MiningOutcome.collect .empty
  match s.verdict with
  | none => folded = .ok s.outcome ∧ s.totals = []
  | some (.error fault) => folded = .error fault ∧ s.totals = []
  | some (.ok value) =>
    folded = .ok s.outcome ∧ (∀ stage ∈ s.stages, stage = .sent) ∧ s.inFlight = [] ∧
      ∃ wallMillis answer,
        value = (s.outcome.finish wallMillis).settle answer ∧
          s.totals = (s.outcome.finish wallMillis).totals

theorem concluded_initial : Concluded (.initial batches) :=
  ⟨rfl, rfl⟩

theorem Concluded.of_worker {i : Nat} {old : Stage} (concluded : Concluded s)
    (stage : s.stages[i]? = some old) (unsent : old ≠ .sent) (taken : t.taken = s.taken)
    (outcome : t.outcome = s.outcome) (totals : t.totals = s.totals)
    (verdict : t.verdict = s.verdict) : Concluded t := by
  rw [Concluded] at concluded ⊢
  rw [verdict, taken, outcome, totals]
  cases ending : s.verdict with
  | none =>
      rw [ending] at concluded
      exact concluded
  | some settled =>
      rw [ending] at concluded
      cases settled with
      | error fault => exact concluded
      -- Without a fault the run only ends when every worker is through.
      | ok value => exact (unsent (concluded.2.1 old (List.mem_of_getElem? stage))).elim

theorem Concluded.step (concluded : Concluded s) (step : Step batches attempts s t) :
    Concluded t := by
  have openFold (unsettled : s.verdict = none) :
      (s.taken.map Prod.snd).foldlM MiningOutcome.collect .empty = .ok s.outcome ∧
        s.totals = [] := by
    rw [Concluded, unsettled] at concluded
    exact concluded
  have appended (unsettled : s.verdict = none) (entry : Nat × BatchReport) :
      ((s.taken ++ [entry]).map Prod.snd).foldlM MiningOutcome.collect .empty =
        s.outcome.collect entry.2 := by
    rw [List.map_append, List.foldlM_append, (openFold unsettled).1]
    change (s.outcome.collect entry.2).bind pure = _
    cases s.outcome.collect entry.2 <;> rfl
  cases step with
  | skip _ stage _ | start stage _ | finish _ stage _ | send stage =>
      exact concluded.of_worker stage (by simp) rfl rfl rfl rfl
  | @collect before after entry outcome unsettled arrived added =>
      have folded := (appended unsettled entry).trans added
      rw [Concluded]
      simp only [unsettled]
      exact ⟨folded, (openFold unsettled).2⟩
  | @overflow before after entry fault unsettled arrived wide =>
      exact ⟨(appended unsettled entry).trans wide, (openFold unsettled).2⟩
  | close unsettled sent drained wallMillis answer =>
      exact ⟨(openFold unsettled).1, sent, drained, wallMillis, answer, rfl, rfl⟩

/-! Whole runs. -/

section Run

variable (run : Steps batches attempts (.initial batches) s)

include run

theorem accounted_of_run : Accounted batches s := by
  induction run with
  | refl => exact accounted_initial
  | tail _ step ih => exact ih.step step

theorem honest_of_run : Honest batches attempts s := by
  induction run with
  | refl => exact honest_initial
  | tail _ step ih => exact ih.step step

theorem concluded_of_run : Concluded s := by
  induction run with
  | refl => exact concluded_initial
  | tail _ step ih => exact ih.step step

end Run

/-! The end of a run. -/

theorem Accounted.perm_range (accounted : Accounted batches s)
    (sent : ∀ stage ∈ s.stages, stage = .sent) (drained : s.inFlight = []) :
    (s.taken.map Prod.fst).Perm (List.range batches.length) := by
  have all : s.taken = s.reported := by rw [Progress.reported, drained, List.nil_append]
  rw [all]
  refine (List.perm_ext_iff_of_nodup accounted.unique List.nodup_range).mpr fun i => ?_
  rw [accounted.sent, List.mem_range, ← accounted.length]
  constructor
  · intro stage
    exact (List.getElem?_eq_some_iff.mp stage).1
  · intro inside
    rw [List.getElem?_eq_getElem inside, sent _ (List.getElem_mem inside)]

theorem made_iff_taken (sent : ∀ stage ∈ s.stages, stage = .sent) (drained : s.inFlight = [])
    (i : Nat) (report : BatchReport) : s.Made i report ↔ (i, report) ∈ s.taken := by
  rw [Progress.Made, Progress.reported, drained, List.nil_append]
  refine or_iff_right fun stage => ?_
  cases sent _ (List.mem_of_getElem? stage)

theorem exists_failed_of_not_done (honest : Honest batches attempts s)
    (sent : ∀ stage ∈ s.stages, stage = .sent) (drained : s.inFlight = [])
    {entry : Nat × BatchReport} (member : entry ∈ s.taken) (undone : ¬ entry.2.isDone = true) :
    ∃ other ∈ s.taken, ∃ failure, other.2 = .failed failure := by
  have made_iff := made_iff_taken sent drained
  obtain ⟨i, report⟩ := entry
  cases report with
  | done result => exact (undone rfl).elim
  | failed failure => exact ⟨(i, .failed failure), member, failure, rfl⟩
  | skipped id =>
      -- The flag was set, and what set it has been taken in like everything else.
      obtain ⟨j, failure, made⟩ :=
        honest.flagged.mp (honest.skipped i id ((made_iff i _).mpr member))
      exact ⟨(j, .failed failure), (made_iff j _).mp made, failure, rfl⟩

/-! A measure that each step takes something of. -/

def Stage.weight : Stage → Nat
  | waiting => 4
  | running => 3
  | ended _ => 2
  | sent => 0

def Progress.weight (s : Progress) : Nat :=
  (s.stages.map Stage.weight).sum + s.inFlight.length + if s.verdict.isNone then 1 else 0

theorem sum_map_weight_set {stages : List Stage} {i : Nat} {old : Stage}
    (stage : stages[i]? = some old) (new : Stage) :
    ((stages.set i new).map Stage.weight).sum + old.weight =
      (stages.map Stage.weight).sum + new.weight := by
  induction stages generalizing i with
  | nil => simp at stage
  | cons first rest ih =>
      cases i with
      | zero =>
          simp only [List.getElem?_cons_zero, Option.some.injEq] at stage
          subst stage
          simp only [List.set_cons_zero, List.map_cons, List.sum_cons]
          omega
      | succ i =>
          have moved := ih (i := i) stage
          simp only [List.set_cons_succ, List.map_cons, List.sum_cons]
          omega

theorem Progress.weight_put {i : Nat} {old : Stage} (stage : s.stages[i]? = some old)
    (new : Stage) : (s.put i new).weight + old.weight = s.weight + new.weight := by
  have moved := sum_map_weight_set stage new
  have parts : (s.put i new).weight = ((s.stages.set i new).map Stage.weight).sum +
      s.inFlight.length + if s.verdict.isNone then 1 else 0 := rfl
  rw [parts, weight]
  omega

theorem Step.weight_lt (step : Step batches attempts s t) : t.weight < s.weight := by
  cases step with
  | @skip i batch here stage flag =>
      have moved := s.weight_put stage (.ended (.skipped batch.id))
      simp only [Stage.weight] at moved
      omega
  | @start i stage flag =>
      have moved := s.weight_put stage .running
      simp only [Stage.weight] at moved
      omega
  | @finish i batch attempt here stage made =>
      have moved := s.weight_put stage (.ended (.ofAttempt batch attempt))
      simp only [Stage.weight] at moved
      change (s.put i (.ended (.ofAttempt batch attempt))).weight < s.weight
      omega
  | @send i report stage =>
      have moved := s.weight_put stage .sent
      simp only [Stage.weight] at moved
      have sent : ({ s.put i .sent with
          inFlight := s.inFlight ++ [(i, report)] } : Progress).weight =
            (s.put i .sent).weight + 1 := by
        simp only [Progress.weight, Progress.put, List.length_append, List.length_singleton]
        omega
      omega
  | collect unsettled arrived added =>
      simp only [Progress.weight, arrived, List.length_append, List.length_cons]
      omega
  | overflow unsettled arrived wide =>
      simp only [Progress.weight, arrived, unsettled, List.length_append, List.length_cons,
        Option.isNone_none, Option.isNone_some, ↓reduceIte, Bool.false_eq_true]
      omega
  | close unsettled sent drained wallMillis answer =>
      simp [Progress.weight, unsettled]

/-- Before the verdict something can always be done. -/
theorem exists_step (accounted : Accounted batches s) (unsettled : s.verdict = none)
    (answered : ∀ batch ∈ batches, ∃ attempt, attempts batch attempt) :
    ∃ t, Step batches attempts s t := by
  by_cases sent : ∀ stage ∈ s.stages, stage = .sent
  · cases waiting : s.inFlight with
    | nil => exact ⟨_, .close unsettled sent waiting 0 (.ok ())⟩
    | cons entry after =>
        have arrived : s.inFlight = [] ++ entry :: after := waiting
        cases added : s.outcome.collect entry.2 with
        | ok outcome => exact ⟨_, .collect unsettled arrived added⟩
        | error fault => exact ⟨_, .overflow unsettled arrived added⟩
  · push Not at sent
    obtain ⟨stage, member, unsent⟩ := sent
    obtain ⟨i, here⟩ := List.mem_iff_getElem?.mp member
    have inside : i < batches.length :=
      accounted.length ▸ (List.getElem?_eq_some_iff.mp here).1
    have batch : batches[i]? = some batches[i] := List.getElem?_eq_getElem inside
    cases stage with
    | waiting =>
        cases flag : s.cancelled with
        | false => exact ⟨_, .start here flag⟩
        | true => exact ⟨_, .skip batch here flag⟩
    | running =>
        obtain ⟨attempt, allowed⟩ := answered batches[i] (List.getElem_mem inside)
        exact ⟨_, .finish batch here allowed⟩
    | ended report => exact ⟨_, .send here⟩
    | sent => exact (unsent rfl).elim

/-! The protocol. -/

/-- A run that has come to its end without a fault: every batch has been reported and taken in, the
result is that of the batches that are done, and the total was handed over if they are all. -/
structure Settled (batches : List Batch) (s : Progress)
    (value : Except MiningError MiningOutcome) (wallMillis : Nat) (answer : Except SinkError Unit)
    (outcome : MiningOutcome) : Prop where
  once : (s.taken.map Prod.fst).Perm (List.range batches.length)
  arrived : ∀ i report, s.Made i report → (i, report) ∈ s.taken
  taken : MiningOutcome.ofReports wallMillis (s.taken.map Prod.snd) = .ok outcome
  result : ∃ total,
    MiningResult.empty.appendAll (MiningOutcome.doneResults (s.taken.map Prod.snd)) = .ok total ∧
      outcome.result = { total with wallMillis }
  value : value = outcome.settle answer
  complete : (∀ entry ∈ s.taken, entry.2.isDone = true) →
    s.totals = [outcome.result] ∧ outcome.failures = [] ∧ outcome.skipped = []
  incomplete : (∃ entry ∈ s.taken, ¬ entry.2.isDone = true) →
    s.totals = [] ∧ outcome.failures ≠ [] ∧
      ∃ entry ∈ s.taken, ∃ failure, entry.2 = .failed failure

theorem settled_of_concluded (accounted : Accounted batches s)
    (honest : Honest batches attempts s) (concluded : Concluded s)
    {value : Except MiningError MiningOutcome} (verdict : s.verdict = some (.ok value)) :
    ∃ wallMillis answer outcome, Settled batches s value wallMillis answer outcome := by
  rw [Concluded, verdict] at concluded
  obtain ⟨folded, sent, drained, wallMillis, answer, settled, totals⟩ := concluded
  obtain ⟨sum, failures, -⟩ := MiningOutcome.foldlM_collect_eq_ok_iff.mp folded
  have complete_iff : (s.outcome.finish wallMillis).isComplete = true ↔
      ∀ entry ∈ s.taken, entry.2.isDone = true := by
    rw [MiningOutcome.isComplete_finish, MiningOutcome.isComplete_iff_of_foldlM folded,
      List.forall_mem_map]
  refine ⟨wallMillis, answer, s.outcome.finish wallMillis, {
    once := accounted.perm_range sent drained
    arrived := fun i report => (made_iff_taken sent drained i report).mp
    taken := by
      rw [MiningOutcome.ofReports_eq, folded]
      rfl
    result := ⟨s.outcome.result, sum, rfl⟩
    value := settled
    complete := fun done => ?_
    incomplete := ?_ }⟩
  · have complete := complete_iff.mpr done
    exact ⟨totals.trans (if_pos complete), MiningOutcome.isComplete_iff.mp complete⟩
  · rintro ⟨entry, member, undone⟩
    have partly : ¬ (s.outcome.finish wallMillis).isComplete = true := fun complete =>
      undone (complete_iff.mp complete entry member)
    obtain ⟨other, listed, failure, report⟩ :=
      exists_failed_of_not_done honest sent drained member undone
    have failed : failure ∈ (s.outcome.finish wallMillis).failures := by
      rw [MiningOutcome.finish, List.mem_mergeSort, failures, MiningOutcome.failed,
        List.mem_filterMap]
      exact ⟨other.2, List.mem_map_of_mem listed, by rw [report]⟩
    exact ⟨totals.trans (if_neg partly), List.ne_nil_of_mem failed, other, listed, failure, report⟩

/-- What can be relied on in every state. -/
structure Orderly (batches : List Batch) (attempts : Batch → Attempt → Prop) (s : Progress) :
    Prop where
  unique : (s.reported.map Prod.fst).Nodup
  sent : ∀ i, i ∈ s.reported.map Prod.fst ↔ s.stages[i]? = some .sent
  genuine : ∀ i report, s.Made i report →
    ∃ batch, batches[i]? = some batch ∧ report.Genuine attempts batch
  /-- Nothing is skipped unless something failed. -/
  skipped : ∀ i id, s.Made i (.skipped id) → ∃ j failure, s.Made j (.failed failure)
  /-- There is no second total, and none before the end or behind a fault. -/
  totals : s.totals.length ≤ 1 ∧ (s.totals ≠ [] → ∃ value, s.verdict = some (.ok value))
  settled : ∀ value, s.verdict = some (.ok value) →
    ∃ wallMillis answer outcome, Settled batches s value wallMillis answer outcome
  /-- A run that ends by a fault ends by that of its results. -/
  faulted : ∀ fault, s.verdict = some (.error fault) →
    MiningResult.empty.appendAll (MiningOutcome.doneResults (s.taken.map Prod.snd)) = .error fault
  lighter : ∀ t, Step batches attempts s t → t.weight < s.weight
  /-- A run goes on to its end if each batch does. -/
  live : (∀ batch ∈ batches, ∃ attempt, attempts batch attempt) → s.verdict = none →
    ∃ t, Step batches attempts s t

theorem Concluded.totals (concluded : Concluded s) :
    s.totals.length ≤ 1 ∧ (s.totals ≠ [] → ∃ value, s.verdict = some (.ok value)) := by
  rw [Concluded] at concluded
  cases verdict : s.verdict with
  | none =>
      rw [verdict] at concluded
      simp [concluded.2]
  | some settled =>
      rw [verdict] at concluded
      cases settled with
      | error fault => simp [concluded.2]
      | ok value =>
          obtain ⟨-, -, -, wallMillis, answer, -, totals⟩ := concluded
          refine ⟨?_, fun _ => ⟨value, rfl⟩⟩
          rw [totals, MiningOutcome.totals]
          split <;> simp

theorem Concluded.faulted (concluded : Concluded s) {fault : Fault}
    (verdict : s.verdict = some (.error fault)) :
    MiningResult.empty.appendAll (MiningOutcome.doneResults (s.taken.map Prod.snd)) =
      .error fault := by
  rw [Concluded, verdict] at concluded
  exact MiningOutcome.foldlM_collect_eq_error_iff.mp concluded.1

theorem orderly_of_run (run : Steps batches attempts (.initial batches) s) :
    Orderly batches attempts s := by
  have accounted := accounted_of_run run
  have honest := honest_of_run run
  have concluded := concluded_of_run run
  exact {
    unique := accounted.unique
    sent := accounted.sent
    genuine := honest.genuine
    skipped i id made := honest.flagged.mp (honest.skipped i id made)
    totals := concluded.totals
    settled _ verdict := settled_of_concluded accounted honest concluded verdict
    faulted _ verdict := concluded.faulted verdict
    lighter _ step := step.weight_lt
    live answered unsettled := exists_step accounted unsettled answered }

end Variability.Mining
