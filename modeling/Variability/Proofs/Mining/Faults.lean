import Variability.Proofs.Mining.PureHistory
import Variability.Proofs.Patch.Bounds
import Variability.Proofs.Patch.Overflow
import Variability.Proofs.Tree.Transformed

/-!
When processing a commit faults. Only the range around the hunks of a patch can leave the words; all
other patches become trees or failures of their own, file by file, and a batch ends without a result
only because of such a patch or because its counts leave the words.
-/

namespace Variability

private theorem mapM_cases {α β ε : Type} (f : α → Except ε β) (as : List α) :
    (∃ bs, as.mapM f = .ok bs ∧ List.Forall₂ (fun a b => f a = .ok b) as bs) ∨
    ∃ a ∈ as, ∃ e, f a = .error e ∧ as.mapM f = .error e := by
  induction as with
  | nil => exact .inl ⟨[], rfl, .nil⟩
  | cons a as ih =>
      simp only [List.mapM_cons]
      cases first : f a with
      | error e => exact .inr ⟨a, by simp, e, first, rfl⟩
      | ok b =>
          rcases ih with ⟨bs, rest, each⟩ | ⟨a', member, e, failed, rest⟩
          · refine .inl ⟨b :: bs, ?_, .cons first each⟩
            rw [rest]
            rfl
          · refine .inr ⟨a', by simp [member], e, failed, ?_⟩
            rw [rest]
            rfl

/-- Some file that the filter accepts has a patch that overflows. -/
def DiffFilter.MeetsOverflow (filter : DiffFilter) (files : List FileDiff) : Prop :=
  ∃ d ∈ files, filter.acceptsFile d ∧ Patch.Overflows d.patch

theorem PatchDiff.ofFile_fault_iff {commit : String} {d : FileDiff} {fault : Fault} :
    ofFile commit d = .error fault ↔ fault = .overflow ∧ Patch.Overflows d.patch := by
  rw [← @Patch.parse_fault_iff d.patch d.path commit, ofFile]
  cases Patch.parse d.patch d.path commit <;> simp [Except.map]

/-- The diff of a commit has the accepted files, each on its own, unless one of them overflows. -/
theorem CommitDiff.build_cases (commit : String) (files : List FileDiff) (filter : DiffFilter) :
    (¬ filter.MeetsOverflow files ∧ ∃ d, build commit files filter = .ok d ∧
      List.Forall₂ (fun f p => PatchDiff.ofFile commit f = .ok p)
        (files.filter filter.acceptsFile) d.patches) ∨
    (filter.MeetsOverflow files ∧ build commit files filter = .error .overflow) := by
  have accepted {f : FileDiff} :
      f ∈ files.filter filter.acceptsFile ↔ f ∈ files ∧ filter.acceptsFile f := List.mem_filter
  simp only [build]
  rcases mapM_cases (PatchDiff.ofFile commit) (files.filter filter.acceptsFile) with
    ⟨patches, mapped, each⟩ | ⟨f, member, fault, failed, mapped⟩
  · refine .inl ⟨?_, _, by rw [mapped]; rfl, each⟩
    rintro ⟨f, listed, accepts, overflows⟩
    obtain ⟨p, -, read⟩ := Mining.exists_of_forall₂ each (accepted.mpr ⟨listed, accepts⟩)
    rw [PatchDiff.ofFile_fault_iff.mpr ⟨rfl, overflows⟩] at read
    cases read
  · obtain ⟨rfl, overflows⟩ := PatchDiff.ofFile_fault_iff.mp failed
    obtain ⟨listed, accepts⟩ := accepted.mp member
    exact .inr ⟨⟨f, listed, accepts, overflows⟩, by rw [mapped]; rfl⟩

theorem CommitDiff.build_fault_iff {commit : String} {files : List FileDiff} {filter : DiffFilter}
    {fault : Fault} :
    build commit files filter = .error fault ↔
      fault = .overflow ∧ filter.MeetsOverflow files := by
  rcases build_cases commit files filter with ⟨fits, d, built, -⟩ | ⟨overflows, built⟩
  · rw [built]
    simp [fits]
  · rw [built]
    simp [overflows, eq_comm]

theorem FileDiff.Remaining.next_le (r : Remaining) (line : List Char) :
    (r.next line).old ≤ r.old ∧ (r.next line).new ≤ r.new := by
  unfold next
  split <;> exact ⟨by simp, by simp⟩

namespace Mining

def Config.MeetsOverflow (config : Config) (files : CommitInfo → List FileDiff)
    (commit : CommitInfo) : Prop :=
  config.filter.acceptsCommit commit ∧ config.filter.MeetsOverflow (files commit)

/-- A file becomes a tree that is mined, or a failure of the file. -/
def PatchOutcome.OfFile (config : Config) (commit : String) (d : FileDiff) (p : PatchOutcome) :
    Prop :=
  ∃ tree, Patch.parse d.patch d.path commit = .ok tree ∧
    p = .ofPatch config ⟨d.path, d.change, tree⟩

theorem PatchOutcome.eq_of_tree?_ofTree {config : Config} {t t' : Tree}
    (exports : (ofTree config t).tree? = some t') : t' = t := by
  simp only [ofTree] at exports
  split at exports
  · cases exports
  · split at exports
    · cases exports
      rfl
    · cases exports

theorem PatchOutcome.OfFile.sound {config : Config} {commit : String} {d : FileDiff}
    {p : PatchOutcome} (made : OfFile config commit d p) {t : Tree} (exports : p.tree? = some t) :
    t.Sound := by
  obtain ⟨tree, parsed, rfl⟩ := made
  cases tree with
  | error e => cases exports
  | ok tree =>
      cases eq_of_tree?_ofTree exports
      exact (Patch.accepted_of_parse parsed).sound.applyAll _

/-- What is made of a commit: every accepted file has an outcome of its own, and the trees that are
exported, alone or as a graph, have all the nodes that they link to. -/
structure CommitOutcome.Complete (config : Config) (commit : CommitInfo) (files : List FileDiff)
    (millis : Nat) (patches : List PatchOutcome) (outcome : CommitOutcome) : Prop where
  each : List.Forall₂ (PatchOutcome.OfFile config commit.id)
    (files.filter config.filter.acceptsFile) patches
  whole : outcome = .ofPatches config commit.id millis patches
  sound : ∀ p ∈ patches, ∀ t, p.tree? = some t → t.Sound
  graph : (Tree.commitGraph commit.id (patches.filterMap PatchOutcome.tree?)).Sound

theorem patchOutcomes_cases (config : Config) (commit : String) (files : List FileDiff) :
    (¬ config.filter.MeetsOverflow files ∧ ∃ patches,
      patchOutcomes config commit files = .ok patches ∧
      List.Forall₂ (PatchOutcome.OfFile config commit) (files.filter config.filter.acceptsFile)
        patches) ∨
    (config.filter.MeetsOverflow files ∧ patchOutcomes config commit files = .error .overflow) := by
  rcases CommitDiff.build_cases commit files config.filter with
    ⟨fits, d, built, each⟩ | ⟨wide, built⟩
  · refine .inl ⟨fits, d.patches.map (PatchOutcome.ofPatch config), ?_, ?_⟩
    · rw [patchOutcomes, built]
      rfl
    · refine List.forall₂_map_right_iff.mpr (each.imp ?_)
      intro f p read
      rw [PatchDiff.ofFile] at read
      cases parsed : Patch.parse f.patch f.path commit with
      | error fault =>
          rw [parsed] at read
          cases read
      | ok tree =>
          rw [parsed] at read
          cases read
          exact ⟨tree, parsed, rfl⟩
  · exact .inr ⟨wide, by rw [patchOutcomes, built]; rfl⟩

theorem commitOutcome_cases (config : Config) (files : CommitInfo → List FileDiff)
    (commit : CommitInfo) (millis : Nat) :
    (config.filter.acceptsCommit commit = false ∧
      commitOutcome config (fun c => .files (files c)) commit millis = .ok .filtered) ∨
    (config.filter.acceptsCommit commit ∧ ¬ config.filter.MeetsOverflow (files commit) ∧
      ∃ patches outcome, commitOutcome config (fun c => .files (files c)) commit millis =
          .ok outcome ∧
        CommitOutcome.Complete config commit (files commit) millis patches outcome) ∨
    (config.MeetsOverflow files commit ∧
      commitOutcome config (fun c => .files (files c)) commit millis = .error .overflow) := by
  unfold commitOutcome
  cases accepts : config.filter.acceptsCommit commit with
  | false => exact .inl ⟨rfl, rfl⟩
  | true =>
      rcases patchOutcomes_cases config commit.id (files commit) with
        ⟨fits, patches, mined, each⟩ | ⟨wide, mined⟩
      · have sound : ∀ p ∈ patches, ∀ t, p.tree? = some t → t.Sound := by
          intro p listed t exports
          obtain ⟨f, -, made⟩ := exists_of_forall₂ each.flip listed
          exact PatchOutcome.OfFile.sound made exports
        refine .inr (.inl ⟨rfl, fits, patches, .ofPatches config commit.id millis patches, ?_,
          each, rfl, sound, ?_⟩)
        · simp only [mined]
          rfl
        · refine Tree.Sound.commitGraph (fun t member => ?_) commit.id
          obtain ⟨p, listed, exports⟩ := List.mem_filterMap.mp member
          exact sound p listed t exports
      · refine .inr (.inr ⟨⟨accepts, wide⟩, ?_⟩)
        simp only [mined]
        rfl

section Run

variable (config : Config) (commits : List CommitInfo) (files : CommitInfo → List FileDiff)
  {W : Type} (clock : StateM W Nat)

theorem processCommit_cases (commit : CommitInfo) (w : W) :
    (config.filter.acceptsCommit commit = false ∧
      ((processCommit config (.ofDiffs commits fun c => .files (files c)) clock commit).run w).1 =
        .ok .filtered) ∨
    (config.filter.acceptsCommit commit ∧ ¬ config.filter.MeetsOverflow (files commit) ∧
      ∃ millis patches outcome,
        ((processCommit config (.ofDiffs commits fun c => .files (files c)) clock commit).run w).1 =
          .ok outcome ∧
        CommitOutcome.Complete config commit (files commit) millis patches outcome) ∨
    (config.MeetsOverflow files commit ∧
      ((processCommit config (.ofDiffs commits fun c => .files (files c)) clock commit).run w).1 =
        .error .overflow) := by
  obtain ⟨millis, same⟩ := @run_processCommit config commits (fun c => .files (files c)) W clock
    commit w
  rw [same]
  rcases commitOutcome_cases config files commit millis with
    filtered | ⟨accepts, fits, patches, outcome, mined, complete⟩ | overflows
  · exact .inl filtered
  · exact .inr (.inl ⟨accepts, fits, millis, patches, outcome, mined, complete⟩)
  · exact .inr (.inr overflows)

theorem processCommit_fault_iff (commit : CommitInfo) (w : W) {fault : Fault} :
    ((processCommit config (.ofDiffs commits fun c => .files (files c)) clock commit).run w).1 =
        .error fault ↔
      fault = .overflow ∧ config.MeetsOverflow files commit := by
  rcases processCommit_cases config commits files clock commit w with
    ⟨refused, run⟩ | ⟨-, fits, -, -, outcome, run, -⟩ | ⟨overflows, run⟩
  · rw [run]
    simp [Config.MeetsOverflow, refused]
  · rw [run]
    simp [Config.MeetsOverflow, fits]
  · rw [run]
    simp [overflows, eq_comm]

/-- Commits that are mined one after the other end in a fault only where one of them overflows, or
where the counts of the commits before do. -/
theorem fault_of_processCommits (listed : List CommitInfo) {r : MiningResult} {written : String}
    {w : W} {fault : Fault}
    (run : ((processCommits config (.ofDiffs commits fun c => .files (files c)) clock r written
      listed).run w).1 = .error fault) :
    fault = .overflow ∧
      ((∃ commit ∈ listed, config.MeetsOverflow files commit) ∨
        ∃ k rs, List.Forall₂ (Mined config fun c => .files (files c)) (listed.take k) rs ∧
          r.appendAll rs = .error .overflow) := by
  induction listed generalizing r written w with
  | nil => cases run
  | cons commit rest ih =>
      rw [processCommits, run_bind] at run
      cases processed : ((processCommit config (.ofDiffs commits fun c => .files (files c)) clock
          commit).run w).1 with
      | error fault' =>
          rw [processed] at run
          cases run
          obtain ⟨rfl, overflows⟩ :=
            (processCommit_fault_iff config commits files clock commit w).mp processed
          exact ⟨rfl, .inl ⟨commit, by simp, overflows⟩⟩
      | ok outcome =>
          have mined : Mined config (fun c => .files (files c)) commit outcome.result :=
            ⟨W, clock, w, outcome, processed, rfl⟩
          simp only [processed] at run
          cases added : r.append outcome.result with
          | error fault' =>
              have wide : fault' = .overflow := by
                rw [MiningResult.append, MiningResult.total?] at added
                split at added <;> cases added
                rfl
              rw [added] at run
              cases run
              refine ⟨wide, .inr ⟨1, [outcome.result], .cons mined .nil, ?_⟩⟩
              rw [MiningResult.appendAll, List.foldlM_cons, added, wide]
              rfl
          | ok sum =>
              rw [added] at run
              obtain ⟨wide, ⟨other, member, overflows⟩ | ⟨k, rs, each, total⟩⟩ := ih run
              · exact ⟨wide, .inl ⟨other, by simp [member], overflows⟩⟩
              · refine ⟨wide, .inr ⟨k + 1, outcome.result :: rs, .cons mined each, ?_⟩⟩
                rw [MiningResult.appendAll, List.foldlM_cons, added]
                exact total

end Run

/-- Processing a commit gives an outcome for every diff, unless a file that is accepted overflows:
some first lines of its patch, with nothing else wrong about them, have several hunks and an end of
one is no word. Parsing, building the diff and processing fault on exactly these, and in no other
way; whatever else may be wrong with a patch stays with its file. Numbers of headers and ranges are
words, lines are counted within the patch, and stacks and links lead to nodes that are there. -/
theorem fault_iff_overflows (config : Config) (files : CommitInfo → List FileDiff)
    (commit : CommitInfo) {W : Type} (clock : StateM W Nat) (w : W) :
    (∀ text path fault, Patch.parse text path commit.id = .error fault ↔
      fault = .overflow ∧ Patch.Overflows text) ∧
    (∀ text, Patch.Overflows text → 1 < (Patch.Outline.ofText text).hunks.length ∧
      ∃ r ∈ (Patch.Outline.ofText text).hunks, ¬ r.Fits) ∧
    (∀ text, Patch.InBounds text) ∧
    (∀ r s hull : HunkRange, r.cover? s = some hull →
      hull.oldEnd = max r.oldEnd s.oldEnd ∧ hull.newEnd = max r.newEnd s.newEnd) ∧
    (∀ (r : FileDiff.Remaining) (line : List Char),
      (r.next line).old ≤ r.old ∧ (r.next line).new ≤ r.new) ∧
    (∀ fault, CommitDiff.build commit.id (files commit) config.filter = .error fault ↔
      fault = .overflow ∧ config.filter.MeetsOverflow (files commit)) ∧
    (∀ fault,
      ((processCommit config (.ofDiffs [] fun c => .files (files c)) clock commit).run w).1 =
          .error fault ↔
        fault = .overflow ∧ config.MeetsOverflow files commit) ∧
    (∀ outcome,
      ((processCommit config (.ofDiffs [] fun c => .files (files c)) clock commit).run w).1 =
          .ok outcome →
        outcome = .filtered ∨ ∃ millis patches,
          CommitOutcome.Complete config commit (files commit) millis patches outcome) ∧
    ∀ batch fault,
      ((processCommits config (.ofDiffs [] fun c => .files (files c)) clock .empty "" batch).run
          w).1 = .error fault →
        fault = .overflow ∧ ((∃ c ∈ batch, config.MeetsOverflow files c) ∨
          ∃ k rs, List.Forall₂ (Mined config fun c => .files (files c)) (batch.take k) rs ∧
            MiningResult.empty.appendAll rs = .error .overflow) := by
  refine ⟨fun text path fault => Patch.parse_fault_iff, fun text => Patch.wide_of_overflows,
    Patch.inBounds, ?_, FileDiff.Remaining.next_le, fun fault => CommitDiff.build_fault_iff,
    fun fault => processCommit_fault_iff config [] files clock commit w, ?_,
    fun batch fault => fault_of_processCommits config [] files clock batch⟩
  · intro r s hull covers
    obtain ⟨-, -, rfl⟩ := HunkRange.cover?_eq_some_iff.mp covers
    exact ⟨HunkRange.oldEnd_hull r s, HunkRange.newEnd_hull r s⟩
  · intro outcome run
    rcases processCommit_cases config [] files clock commit w with
      ⟨-, filtered⟩ | ⟨-, -, millis, patches, mined, processed, complete⟩ | ⟨-, faulted⟩
    · exact .inl (Except.ok.inj (run.symm.trans filtered))
    · cases run.symm.trans processed
      exact .inr ⟨millis, patches, complete⟩
    · cases run.symm.trans faulted

/-- The first of two hunks ends behind the words, and nothing else is wrong. -/
theorem not_processCommit_returns :
    ∃ diff : String, FileDiff.split diff =
        [⟨some "f.c", some "f.c", .modified,
          "@@ -18446744073709551615,1 +1,1 @@\n x\n@@ -1,1 +1,1 @@\n y\n"⟩] ∧
      Patch.parse "@@ -18446744073709551615,1 +1,1 @@\n x\n@@ -1,1 +1,1 @@\n y\n" "f.c" "c" =
        .error .overflow ∧
      ((processCommit .standard (.ofDiffs [] fun _ => .files (FileDiff.split diff))
        (pure 0 : StateM Unit Nat) ⟨"c", 1⟩).run ()).1 = .error .overflow := by
  let patch := "@@ -18446744073709551615,1 +1,1 @@\n x\n@@ -1,1 +1,1 @@\n y\n"
  let diff := "diff --git a/f.c b/f.c\n--- a/f.c\n+++ b/f.c\n" ++ patch
  have split : FileDiff.split diff = [⟨some "f.c", some "f.c", .modified, patch⟩] := by
    decide +kernel
  have faulted : Patch.parse patch "f.c" "c" = .error .overflow := by decide +kernel
  refine ⟨diff, split, faulted, (processCommit_fault_iff .standard [] _ _ _ _).mpr ⟨rfl, ?_⟩⟩
  refine ⟨rfl, ⟨some "f.c", some "f.c", .modified, patch⟩, ?_, by decide +kernel, ?_⟩
  · rw [split]
    exact List.mem_singleton_self _
  · exact (Patch.parse_fault_iff.mp faulted).2

end Mining

end Variability
