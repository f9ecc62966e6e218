import Variability.Proofs.CommandLine.Directory
import Variability.Proofs.Mining.Batching

/-!
Mining the patches of a directory with many workers that write into one output directory. The
workers ask the host one thing at a time, in any order among each other, and any answer may come,
also that a file cannot be written. Between any two questions the files of the batches that are done
are whole, and there is a total only behind the end of a run in which every batch is done, unless a
batch has the name of the total.
-/

namespace Variability.CommandLine

open Mining Script

/-! Runs. -/

/-- A run in the middle: how far the workers and the collector are, what is left to do of each
batch, and the files. -/
structure Site where
  progress : Progress
  scripts : List (Script Attempt)
  files : Files

section Run

variable (config : Config) (limit : Nat) (patches output : String) (batches : List Batch)

def batchScript (batch : Batch) : Script Attempt :=
  processBatch config (directoryHistory Script.host limit patches) Script.host.millis
    (directorySink Script.host output) batch

namespace Site

/-- Before anything was done, with an empty output directory. -/
def initial : Site where
  progress := .initial batches
  scripts := batches.map (batchScript config limit patches output)
  files _ := none

/-- What the batch has come to. -/
def Reached (s : Site) (batch : Batch) (attempt : Attempt) : Prop :=
  s.scripts[batch.index]? = some (.done attempt)

end Site

/-- Writing the total, if there is one. -/
inductive Hands (outcome : MiningOutcome) (files : Files) :
    Except SinkError Unit → Files → Prop where
  | total {answer : Except SinkError Unit} {after : Files} (complete : outcome.isComplete = true)
      (written : Plays ((directorySink Script.host output).writeTotal outcome.result) files answer
        after) : Hands outcome files answer after
  | nothing (answer : Except SinkError Unit) (incomplete : outcome.isComplete = false) :
      Hands outcome files answer files

inductive SiteStep : Site → Site → Prop where
  /-- A worker asks the host for something. -/
  | ask {s : Site} {i : Nat} {request : Request} {next : request.Answer → Script Attempt}
      {answer : request.Answer} {files : Files} (stage : s.progress.stages[i]? = some .running)
      (script : s.scripts[i]? = some (.ask request next))
      (response : Responds s.files request answer files) :
      SiteStep s { s with scripts := s.scripts.set i (next answer), files }
  /-- A worker or the collector goes on, without an end. -/
  | go {s : Site} {progress : Progress} (step : Step batches s.Reached s.progress progress)
      (unended : ∀ value, progress.verdict ≠ some (.ok value)) : SiteStep s { s with progress }
  /-- The collector has all reports. -/
  | close {s : Site} (unsettled : s.progress.verdict = none)
      (sent : ∀ stage ∈ s.progress.stages, stage = .sent) (drained : s.progress.inFlight = [])
      (wallMillis : Nat) {answer : Except SinkError Unit} {files : Files}
      (handed : Hands output (s.progress.outcome.finish wallMillis) s.files answer files) :
      SiteStep s
        { s with
          progress := { s.progress with
            totals := (s.progress.outcome.finish wallMillis).totals
            verdict := some (.ok ((s.progress.outcome.finish wallMillis).settle answer)) }
          files }

abbrev SiteSteps : Site → Site → Prop :=
  Relation.ReflTransGen (SiteStep output batches)

end Run

variable {config : Config} {limit : Nat} {patches output : String} {batches : List Batch}
  {s t : Site}

/-- The workers and the collector do not mind the files. -/
theorem SiteStep.progress (step : SiteStep output batches s t) :
    t.progress = s.progress ∨ Step batches s.Reached s.progress t.progress := by
  cases step with
  | ask => exact .inl rfl
  | go step => exact .inr step
  | close unsettled sent drained wallMillis =>
      exact .inr (.close unsettled sent drained wallMillis _)

theorem steps_of_siteSteps
    (run : SiteSteps output batches (.initial config limit patches output batches) s) :
    Steps batches (fun _ _ => True) (.initial batches) s.progress := by
  induction run with
  | refl => exact .refl
  | tail _ step ih =>
      obtain same | step := step.progress
      · rwa [same]
      · exact ih.tail (step.mono fun _ _ _ => trivial)

/-! What every step keeps. -/

/-- Batches that stand at their places, no two of one name, and no name with a slash in it. -/
structure Named (batches : List Batch) : Prop where
  index : ∀ (i : Nat) (batch : Batch), batches[i]? = some batch → batch.index = i
  slashless : ∀ batch ∈ batches, '/' ∉ batch.id.toList
  distinct : (batches.map (·.id)).Nodup

theorem Named.disjoint (named : Named batches) {i j : Nat} {batch other : Batch}
    (here : batches[i]? = some batch) (there : batches[j]? = some other) (apart : i ≠ j) :
    batchFiles output other.id ⊆ (batchFiles output batch.id)ᶜ := by
  have inside : i < (batches.map (·.id)).length := by
    simpa using (List.getElem?_eq_some_iff.mp here).1
  have different : batch.id ≠ other.id := fun same =>
    apart ((List.getElem?_inj inside named.distinct).mp (by simp [here, there, same]))
  intro path theirs own
  exact not_mem_batchFiles (named.slashless _ (List.mem_of_getElem? here))
    (named.slashless _ (List.mem_of_getElem? there)) different own theirs

/-- By some answers of the host, this is what mining the commits of the batch gives. -/
def MinedFrom (config : Config) (limit : Nat) (patches : String) (batch : Batch) (text : String)
    (result : MiningResult) : Prop :=
  (processCommits config (directoryHistory Script.host limit patches) Script.host.millis .empty ""
    batch.commits).Yields (.ok (result, text))

/-- If the batch is done, its files hold what was mined. -/
def Kept (config : Config) (limit : Nat) (patches output : String) (batch : Batch)
    (attempt : Attempt) (files : Files) : Prop :=
  ∀ result, attempt = .ok (.ok result) →
    ∃ text, MinedFrom config limit patches batch text result ∧
      HoldsBatch output batch.id text result files

/-- The files of a run in any state. Of a batch with the name of the total nothing is known any more
once the total was handed over. -/
structure Tidy (config : Config) (limit : Nat) (patches output : String) (batches : List Batch)
    (s : Site) : Prop where
  length : s.scripts.length = batches.length
  secured : ∀ (i : Nat) (batch : Batch) (script : Script Attempt),
    batches[i]? = some batch → s.scripts[i]? = some script →
    batch.id ≠ totalId ∨ s.progress.totals = [] →
    script.Secures (batchFiles output batch.id) (Kept config limit patches output batch) s.files
  reached : ∀ i result, s.progress.Made i (.done result) →
    s.scripts[i]? = some (.done (.ok (.ok result)))
  total : (∀ e, s.progress.verdict ≠ some (.ok (.error (.sink e)))) →
    ∀ total ∈ s.progress.totals, s.files (totalPath output) = some total.toSnapshot
  absent : (∀ batch ∈ batches, batch.id ≠ totalId) → s.progress.totals = [] →
    s.files (totalPath output) = none

theorem tidy_initial (named : Named batches) :
    Tidy config limit patches output batches (.initial config limit patches output batches) where
  length := List.length_map _
  secured i batch script here started _ := by
    simp only [Site.initial, List.getElem?_map, here, Option.map_some, Option.some.injEq] at started
    subst started
    exact secures_processBatch (silent_diff limit patches) silent_millis
      (named.slashless batch (List.mem_of_getElem? here)) _
  reached i result made := (Progress.not_made_initial made).elim
  total _ _ member := nomatch member
  absent _ _ := rfl

theorem totals_eq_nil_of_unsent {p : Progress} (concluded : Concluded p) {i : Nat} {stage : Stage}
    (here : p.stages[i]? = some stage) (unsent : stage ≠ .sent) : p.totals = [] := by
  rw [Concluded] at concluded
  cases verdict : p.verdict with
  | none =>
      rw [verdict] at concluded
      exact concluded.2
  | some settled =>
      rw [verdict] at concluded
      cases settled with
      | error fault => exact concluded.2
      | ok value => exact (unsent (concluded.2.1 stage (List.mem_of_getElem? here))).elim

/-- A worker that asks for something leaves the files of the others as they are. -/
theorem Tidy.ask (named : Named batches) (tidy : Tidy config limit patches output batches s)
    (concluded : Concluded s.progress) {i : Nat} {request : Request}
    {next : request.Answer → Script Attempt} {answer : request.Answer} {files : Files}
    (stage : s.progress.stages[i]? = some .running)
    (script : s.scripts[i]? = some (.ask request next))
    (response : Responds s.files request answer files) :
    Tidy config limit patches output batches
      { s with scripts := s.scripts.set i (next answer), files } := by
  have early : s.progress.totals = [] := totals_eq_nil_of_unsent concluded stage nofun
  have inside : i < s.scripts.length := (List.getElem?_eq_some_iff.mp script).1
  obtain ⟨own, here⟩ : ∃ own, batches[i]? = some own :=
    ⟨_, List.getElem?_eq_getElem (tidy.length ▸ inside)⟩
  have asking := tidy.secured i _ _ here script (.inr early)
  have others := asking.eqOn_compl response
  constructor
  · exact List.length_set.trans tidy.length
  · intro j batch rest there left unnamed
    by_cases same : i = j
    · subst same
      rw [List.getElem?_set_self inside, Option.some.injEq] at left
      rw [here, Option.some.injEq] at there
      subst left there
      exact asking.answer response
    · rw [List.getElem?_set_ne same] at left
      exact (tidy.secured j batch rest there left unnamed).congr
        (others.mono (named.disjoint here there same))
  · intro j result made
    have ended := tidy.reached j result made
    by_cases same : i = j
    · subst same
      rw [script] at ended
      cases ended
    · rwa [List.getElem?_set_ne same]
  · intro _ total handed
    rw [early] at handed
    cases handed
  · intro unnamed _
    have member := List.mem_of_getElem? here
    have foreign := totalPath_not_mem_batchFiles output
      (named.slashless _ member) (unnamed _ member)
    exact (others foreign).symm.trans (tidy.absent unnamed early)

/-- Only a step to the end hands a total over, and none is behind it. -/
theorem step_unended {attempts : Batch → Attempt → Prop} {p q : Progress}
    (step : Step batches attempts p q) (unended : ∀ value, q.verdict ≠ some (.ok value)) :
    q.totals = p.totals ∧ ∀ value, p.verdict ≠ some (.ok value) := by
  cases step with
  | skip | start | finish | send | collect => exact ⟨rfl, unended⟩
  | overflow unsettled => exact ⟨rfl, by simp [unsettled]⟩
  | close => exact (unended _ rfl).elim

theorem Tidy.go (named : Named batches) (tidy : Tidy config limit patches output batches s)
    (concluded : Concluded s.progress) {progress : Progress}
    (step : Step batches s.Reached s.progress progress)
    (unended : ∀ value, progress.verdict ≠ some (.ok value)) :
    Tidy config limit patches output batches { s with progress } := by
  have totals := (step_unended step unended).1
  have early : progress.totals = [] := by
    by_contra handed
    obtain ⟨value, verdict⟩ := (concluded.step (step.mono fun _ _ _ => trivial)).totals.2 handed
    exact unended value verdict
  constructor
  · exact tidy.length
  · intro i batch script here left _
    exact tidy.secured i batch script here left (.inr (totals.symm.trans early))
  · intro i result made
    obtain ⟨same, -⟩ | ⟨j, batch, report, here, more, reason⟩ := step.made
    · exact tidy.reached i result ((same _ _).mp made)
    · obtain before | ⟨rfl, rfl⟩ := (more _ _).mp made
      · exact tidy.reached i result before
      · obtain ⟨skipped, -⟩ | ⟨attempt, reached, ended, -⟩ := reason
        · cases skipped
        · rw [Site.Reached, named.index _ _ here] at reached
          rcases attempt with fault | e | other <;> cases ended
          exact reached
  · intro _ total handed
    rw [early] at handed
    cases handed
  · intro unnamed _
    exact tidy.absent unnamed (totals.symm.trans early)

/-- Handing the total over is writing its file. -/
theorem Hands.cases {outcome : MiningOutcome} {files after : Files}
    {answer : Except SinkError Unit} (handed : Hands output outcome files answer after) :
    (outcome.isComplete = false ∧ after = files) ∨
      outcome.isComplete = true ∧ ∃ left,
        after = Function.update files (totalPath output) left ∧
          (answer = .ok () → left = some outcome.result.toSnapshot) := by
  cases handed with
  | nothing incomplete => exact .inl ⟨incomplete, rfl⟩
  | total complete written =>
      refine .inr ⟨complete, ?_⟩
      rcases written with _ | ⟨response, later⟩
      cases response with
      | written =>
          cases later
          exact ⟨_, rfl, fun _ => rfl⟩
      | refused path contents e left =>
          cases later
          exact ⟨left, rfl, nofun⟩
      | answered untouched => cases untouched

theorem Tidy.close (named : Named batches) (tidy : Tidy config limit patches output batches s)
    (early : s.progress.totals = []) {outcome : MiningOutcome} {answer : Except SinkError Unit}
    {files : Files} (handed : Hands output outcome s.files answer files) :
    Tidy config limit patches output batches
      { s with
        progress := { s.progress with
          totals := outcome.totals
          verdict := some (.ok (outcome.settle answer)) }
        files } := by
  obtain ⟨incomplete, rfl⟩ | ⟨complete, left, rfl, written⟩ := handed.cases
  · have none : outcome.totals = [] := by rw [MiningOutcome.totals, incomplete]; rfl
    refine ⟨tidy.length, fun i batch script here left _ => ?_, tidy.reached, ?_, ?_⟩
    · exact tidy.secured i batch script here left (.inr early)
    · intro _ total member
      rw [none] at member
      cases member
    · exact fun unnamed _ => tidy.absent unnamed early
  · have one : outcome.totals = [outcome.result] := if_pos complete
    refine ⟨tidy.length, fun i batch script here left unnamed => ?_, tidy.reached, ?_, ?_⟩
    · have different : batch.id ≠ totalId := unnamed.resolve_right (by simp [one])
      have foreign := totalPath_not_mem_batchFiles output
        (named.slashless _ (List.mem_of_getElem? here)) different
      refine (tidy.secured i batch script here left (.inr early)).congr fun path own => ?_
      have other : path ≠ totalPath output := by
        rintro rfl
        exact foreign own
      exact (Function.update_of_ne other _ _).symm
    · intro accepted total member
      rw [one] at member
      obtain rfl := List.mem_singleton.mp member
      have ok : answer = .ok () := by
        rcases answer with e | _
        · exact (accepted e (by rw [MiningOutcome.settle, if_pos complete])).elim
        · rfl
      rw [written ok]
      exact Function.update_self ..
    · intro _ none
      rw [one] at none
      cases none

theorem Tidy.step (named : Named batches) (tidy : Tidy config limit patches output batches s)
    (concluded : Concluded s.progress) (step : SiteStep output batches s t) :
    Tidy config limit patches output batches t := by
  cases step with
  | ask stage script response => exact tidy.ask named concluded stage script response
  | go step unended => exact tidy.go named concluded step unended
  | close unsettled sent drained wallMillis handed =>
      rw [Concluded, unsettled] at concluded
      exact tidy.close named concluded.2 handed

theorem tidy_of_run (named : Named batches)
    (run : SiteSteps output batches (.initial config limit patches output batches) s) :
    Tidy config limit patches output batches s := by
  induction run with
  | refl => exact tidy_initial named
  | tail run step ih => exact ih.step named (concluded_of_run (steps_of_siteSteps run)) step

end Variability.CommandLine
