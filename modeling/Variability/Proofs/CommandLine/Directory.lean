import Mathlib.Data.List.Nodup
import Variability.CommandLine.Program
import Variability.Proofs.CommandLine.Script
import Variability.Proofs.Text.Written

/-!
The directories of a run: commits are files of one, and results go to files of the other. A batch
has two files that are named by it; as ids have no slash in them, no two batches have a file in
common, and only a batch that is named like the total has one in common with the total. Mining a
batch writes its two files and nothing else, and leaves in them what was mined if it ends well.
-/

namespace Variability.CommandLine

open Mining (processCommit processCommits processBatch)

def graphPath (directory id : String) : String :=
  join directory (id ++ ".lg")

def metadataPath (directory id : String) : String :=
  join directory (id ++ metadataEnd)

/-- The id of a batch whose metadata would be taken for the total. -/
def totalId : String := "totalresult"

theorem metadataPath_totalId (directory : String) :
    metadataPath directory totalId = totalPath directory := rfl

/-- The files that a batch is written to. -/
def batchFiles (directory id : String) : Set String :=
  {graphPath directory id, metadataPath directory id}

/-! Paths. -/

theorem eq_of_join_eq {directory name other : String} (relative : name.startsWith "/" = false)
    (relativeToo : other.startsWith "/" = false)
    (same : join directory name = join directory other) : name = other := by
  have cancel {before : String} (same : before ++ name = before ++ other) : name = other := by
    rw [← String.toList_inj, String.toList_append, String.toList_append,
      List.append_cancel_left_eq] at same
    exact String.toList_inj.mp same
  rw [join, join, relative, relativeToo, Bool.false_or] at same
  split at same
  · exact same
  · split at same
    · exact cancel same
    · exact cancel same

theorem startsWith_append_eq_false {id ending : String} (slashless : '/' ∉ id.toList)
    (rest : '/' ∉ ending.toList) : (id ++ ending).startsWith "/" = false := by
  rw [String.startsWith_string_eq_false_iff, String.toList_append]
  rintro ⟨behind, whole⟩
  have member : '/' ∈ id.toList ++ ending.toList := whole ▸ List.mem_append_left _ (by decide)
  exact (List.mem_append.mp member).elim slashless rest

section Ids

variable {directory id other : String} (slashless : '/' ∉ id.toList)
  (slashlessToo : '/' ∉ other.toList)

include slashless slashlessToo

theorem eq_of_graphPath_eq (same : graphPath directory id = graphPath directory other) :
    id = other := by
  have names := eq_of_join_eq (startsWith_append_eq_false slashless (by decide))
    (startsWith_append_eq_false slashlessToo (by decide)) same
  simpa [← String.toList_inj] using names

theorem eq_of_metadataPath_eq (same : metadataPath directory id = metadataPath directory other) :
    id = other := by
  have names := eq_of_join_eq (startsWith_append_eq_false slashless (by decide))
    (startsWith_append_eq_false slashlessToo (by decide)) same
  simpa [← String.toList_inj] using names

theorem graphPath_ne_metadataPath : graphPath directory id ≠ metadataPath directory other := by
  intro same
  have names := eq_of_join_eq (startsWith_append_eq_false slashless (by decide))
    (startsWith_append_eq_false slashlessToo (by decide)) same
  have lasts := congrArg (·.toList.getLast?) names
  simp [metadataEnd] at lasts

/-- Batches with different ids have no file in common. -/
theorem not_mem_batchFiles (different : id ≠ other) {path : String}
    (own : path ∈ batchFiles directory id) : path ∉ batchFiles directory other := by
  obtain rfl | rfl := own
  · rintro (same | same)
    · exact different (eq_of_graphPath_eq slashless slashlessToo same)
    · exact graphPath_ne_metadataPath slashless slashlessToo same
  · rintro (same | same)
    · exact graphPath_ne_metadataPath slashlessToo slashless same.symm
    · exact different (eq_of_metadataPath_eq slashless slashlessToo same)

end Ids

theorem totalPath_not_mem_batchFiles (directory : String) {id : String}
    (slashless : '/' ∉ id.toList) (different : id ≠ totalId) :
    totalPath directory ∉ batchFiles directory id := by
  intro own
  exact not_mem_batchFiles slashless (by decide) different own
    (.inr (metadataPath_totalId directory).symm)

/-! Mining a batch as a script. -/

open Script

theorem silent_millis : Script.host.millis.Silent :=
  ⟨rfl, fun _ => trivial⟩

theorem silent_readFile (limit : Nat) (path : String) :
    (readFile Script.host limit path).Silent := by
  refine ⟨rfl, fun answer => ?_⟩
  cases answer with
  | error e => trivial
  | ok size =>
      change Silent (if limit < size then _ else _)
      split
      · trivial
      · refine ⟨rfl, fun bytes => ?_⟩
        cases bytes <;> trivial

theorem silent_diff (limit : Nat) (directory : String) (commit : CommitInfo) :
    ((directoryHistory Script.host limit directory).diff commit).Silent := by
  refine (silent_readFile limit _).bind fun answer => ?_
  cases answer <;> trivial

theorem silent_processCommit {config : Mining.Config} {history : Mining.History Script}
    {clock : Script Nat} (reads : ∀ commit, (history.diff commit).Silent) (ticks : clock.Silent)
    (commit : CommitInfo) : (processCommit config history clock commit).Silent := by
  refine ticks.bind fun start => ?_
  split
  · trivial
  · refine (reads commit).bind fun answer => ?_
    cases answer with
    | unavailable message | crashed message => trivial
    | files files =>
        dsimp only
        cases CommitDiff.build commit.id files config.filter with
        | error fault => trivial
        | ok d => exact ticks.bind fun stop => trivial

theorem silent_processCommits {config : Mining.Config} {history : Mining.History Script}
    {clock : Script Nat} (reads : ∀ commit, (history.diff commit).Silent) (ticks : clock.Silent)
    (commits : List CommitInfo) (result : MiningResult) (text : String) :
    (processCommits config history clock result text commits).Silent := by
  induction commits generalizing result text with
  | nil => trivial
  | cons commit commits ih =>
      refine (silent_processCommit reads ticks commit).bind fun answer => ?_
      cases answer with
      | error fault => trivial
      | ok outcome =>
          dsimp only
          cases result.append outcome.result with
          | error fault => trivial
          | ok sum => exact ih sum _

/-- The files of a batch hold what was mined. -/
def HoldsBatch (directory id text : String) (result : MiningResult) (files : Files) : Prop :=
  files (graphPath directory id) = some text ∧
    files (metadataPath directory id) = some result.toSnapshot

theorem HoldsBatch.congr {directory id text : String} {result : MiningResult} {files now : Files}
    (holds : HoldsBatch directory id text result files)
    (same : Set.EqOn files now (batchFiles directory id)) :
    HoldsBatch directory id text result now :=
  ⟨(same (.inl rfl)).symm.trans holds.1, (same (.inr rfl)).symm.trans holds.2⟩

theorem secures_writeBatch {directory id text : String} {result : MiningResult}
    (slashless : '/' ∉ id.toList) (files : Files) :
    ((directorySink Script.host directory).writeBatch id text result).Secures
      (batchFiles directory id)
      (fun answer files => answer = .ok () → HoldsBatch directory id text result files) files := by
  have apart : graphPath directory id ≠ metadataPath directory id :=
    graphPath_ne_metadataPath slashless slashless
  refine ⟨by rintro path ⟨⟩; exact .inl rfl, fun now _ answer after response => ?_⟩
  cases response with
  | refused => exact fun _ _ said => nomatch said
  | written =>
      refine ⟨by rintro path ⟨⟩; exact .inr rfl, fun next kept answer last response => ?_⟩
      cases response with
      | refused => exact fun _ _ said => nomatch said
      | written =>
          refine fun later unchanged _ => HoldsBatch.congr ⟨?_, Function.update_self ..⟩ unchanged
          rw [Function.update_of_ne apart, ← kept (.inl rfl)]
          exact Function.update_self ..
      | answered untouched => cases untouched
  | answered untouched => cases untouched

/-- What a batch ends well with is what was mined, and its files hold that. -/
theorem secures_processBatch {config : Mining.Config} {history : Mining.History Script}
    {clock : Script Nat} (reads : ∀ commit, (history.diff commit).Silent) (ticks : clock.Silent)
    {directory : String} {batch : Mining.Batch} (slashless : '/' ∉ batch.id.toList)
    (files : Files) :
    (processBatch config history clock (directorySink Script.host directory) batch).Secures
      (batchFiles directory batch.id)
      (fun attempt files => ∀ result, attempt = .ok (.ok result) →
        ∃ text, (processCommits config history clock .empty "" batch.commits).Yields
            (.ok (result, text)) ∧ HoldsBatch directory batch.id text result files) files := by
  refine .bind ((silent_processCommits reads ticks _ _ _).secures fun mined yields now _ => ?_)
  cases mined with
  | error fault => exact fun _ _ result said => nomatch said
  | ok mined =>
      obtain ⟨result, text⟩ := mined
      refine .bind ((secures_writeBatch slashless now).mono fun answer files holds => ?_)
      cases answer with
      | error e => exact fun _ _ other said => nomatch said
      | ok accepted =>
          intro later unchanged other said
          cases said
          exact ⟨text, yields, (holds rfl).congr unchanged⟩

/-! The commits of a directory. -/

theorem sublist_of_patchNames {directory : String} {names ids : List String}
    (yields : (patchNames Script.host directory names).Yields ids) :
    ids.Sublist (names.filterMap commitOfName?) := by
  induction names generalizing ids with
  | nil =>
      cases yields
      exact .slnil
  | cons name names ih =>
      obtain ⟨rest, first, yields⟩ := yields.of_bind
      cases commit : commitOfName? name with
      | none =>
          rw [commit] at yields
          cases yields
          rw [List.filterMap_cons_none commit]
          exact ih first
      | some id =>
          rw [commit] at yields
          rw [List.filterMap_cons_some commit]
          rcases yields with _ | ⟨answer, later⟩
          cases answer with
          | true =>
              cases later
              exact (ih first).cons_cons id
          | false =>
              cases later
              exact (ih first).cons id

/-- Commits that a directory with these names in it lists. -/
def Lists (directory : String) (names : List String) (commits : List CommitInfo) : Prop :=
  ∃ ids, (patchNames Script.host directory names).Yields ids ∧
    commits = (ids.mergeSort (· ≤ ·)).map (⟨·, 1⟩)

/-- Every name is that of a commit, and they are in their order. -/
theorem lists_of_forall₂ {directory : String} {names ids : List String}
    (each : List.Forall₂ (fun name id => commitOfName? name = some id) names ids)
    (sorted : ids.Pairwise (· ≤ ·)) : Lists directory names (ids.map (⟨·, 1⟩)) := by
  have yields : (patchNames Script.host directory names).Yields ids := by
    clear sorted
    induction each with
    | nil => exact .done _
    | @cons name id names ids commit _ ih =>
        refine .bind ih ?_
        rw [commit]
        exact .ask true (.done _)
  refine ⟨ids, yields, ?_⟩
  rw [List.mergeSort_of_pairwise]
  simpa using sorted

theorem eq_of_commitOfName? {name id : String} (commit : commitOfName? name = some id) :
    name.toList = id.toList ++ '.' :: patchExtension.toList := by
  simp only [commitOfName?, Option.bind_eq_bind, Option.bind_eq_some_iff] at commit
  obtain ⟨stem, cut, kept⟩ := commit
  split at kept
  · cases kept
  · cases kept
    rw [String.toList_ofList]
    exact Text.before?_eq_some_iff.mp cut

/-- As no two names in a directory are the same, no two commits are. -/
theorem Lists.ids {directory : String} {names : List String} {commits : List CommitInfo}
    (listed : Lists directory names commits) (unique : names.Nodup)
    (slashless : ∀ name ∈ names, '/' ∉ name.toList) :
    (commits.map (·.id)).Nodup ∧ ∀ id ∈ commits.map (·.id), '/' ∉ id.toList := by
  obtain ⟨ids, yields, rfl⟩ := listed
  have part := sublist_of_patchNames yields
  have names : ((ids.mergeSort (· ≤ ·)).map fun id => (⟨id, 1⟩ : CommitInfo)).map (·.id) =
      ids.mergeSort (· ≤ ·) := by simp [Function.comp_def]
  rw [names]
  have sorted := List.mergeSort_perm ids (fun a b => decide (a ≤ b))
  constructor
  · refine sorted.nodup_iff.mpr (part.nodup (unique.filterMap ?_))
    intro name other id commit commitToo
    have same := (eq_of_commitOfName? commit).trans (eq_of_commitOfName? commitToo).symm
    exact String.toList_inj.mp same
  · intro id member
    obtain ⟨name, inside, commit⟩ :=
      List.mem_filterMap.mp (part.subset (sorted.mem_iff.mp member))
    intro slash
    refine slashless name inside ?_
    rw [eq_of_commitOfName? commit]
    exact List.mem_append_left _ slash

end Variability.CommandLine
