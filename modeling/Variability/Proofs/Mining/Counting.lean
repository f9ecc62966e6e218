import Variability.Proofs.MiningResult.Tally

/-!
How the counts of a commit come about. Each file adds what became of it to the counts and leaves the
rest as it is, on every way out; when all files are done, every count is the number of files, nodes
or matches that it is about.
-/

namespace Variability.Mining

open PatchOutcome

variable {config : Config}

/-! One file. -/

/-- Where a file is left before its tree is exported. -/
def PatchOutcome.reached : PatchOutcome → UnitState × Option Tree
  | exported t _ => (.classified, some t)
  | rejected _ => (.rejected, none)
  | failed _ => (.failed, none)

namespace Counts

/-- The counts with what is counted on the way of a file. -/
def count (counts : Counts) : PatchOutcome → Counts
  | exported _ found => found.foldl recordMatch counts
  | rejected c => { counts with rejections := c.charge counts.rejections }
  | failed kind => counts.recordDiffError kind

/-- The counts when some more files are done. -/
def after (counts : Counts) (patches : List PatchOutcome) : Counts where
  result := { counts.result with
    exportedNodes := (((treesOf patches).flatMap exportedEdits).map Edit.token).foldl KeyMap.bump
      counts.result.exportedNodes
    diffErrors := (patches.filterMap error?).foldl KeyMap.bump counts.result.diffErrors }
  rejections := (patches.filterMap filterHit?).foldl KeyMap.bump counts.rejections
  occurrences := (patternsOf patches).foldl KeyMap.bump counts.occurrences

@[simp] theorem after_nil (counts : Counts) : counts.after [] = counts := rfl

theorem after_cons (counts : Counts) (p : PatchOutcome) (patches : List PatchOutcome) :
    counts.after (p :: patches) = (counts.after [p]).after patches := by
  simp only [after, treesOf, patternsOf, List.flatMap_cons, List.filterMap_cons, List.filterMap_nil,
    List.flatMap_nil, List.append_nil, List.foldl_append]
  cases p <;> simp [tree?, error?, filterHit?]

theorem foldl_recordMatch (found : List RuleMatch) (counts : Counts) :
    found.foldl recordMatch counts =
      { counts with
        occurrences := (found.map (·.rule)).foldl KeyMap.bump counts.occurrences } := by
  induction found generalizing counts with
  | nil => rfl
  | cons m found ih => exact ih (counts.recordMatch m)

/-- The nodes of a tree besides its root are counted by their edits. -/
theorem recordNodes_eq (counts : Counts) (t : Tree) :
    counts.recordNodes t =
      { counts with result := { counts.result with
        exportedNodes := ((exportedEdits t).map Edit.token).foldl KeyMap.bump
          counts.result.exportedNodes } } := by
  rw [recordNodes, exportedEdits, ← Array.foldl_toList]
  generalize counts.result = r
  induction t.nodes.toList generalizing r with
  | nil => rfl
  | cons node nodes ih =>
      rw [List.foldl_cons, ih]
      by_cases root : node.kind = .root <;> simp [root, MiningResult.recordNode]

end Counts

/-- The filter is tried before anything is classified, and a rejection is charged at once. -/
theorem run_test (a : Analysis) (filter : List Criterion) (counts : KeyMap Nat) (m : Memory) :
    (a.test filter counts).run m =
      let (rejection, memory) := (a.rejection? filter).run m
      ((rejection.isNone, rejection.elim counts (Criterion.charge counts)), memory) := by
  unfold Analysis.test
  rw [StateT.run_bind]
  rcases (a.rejection? filter).run m with ⟨_ | c, memory⟩ <;> rfl

theorem run_processPatch (p : PatchDiff) (counts : Counts) :
    (processPatch config p).run counts =
      ((ofPatch config p).reached, counts.count (ofPatch config p)) := by
  unfold processPatch ofPatch
  cases p.tree with
  | error e => rfl
  | ok parsed =>
      dsimp only
      unfold ofTree
      generalize Transform.applyAll config.transforms parsed = t
      rw [StateT.run_bind, StateT.run_get, pure_bind, run_test]
      dsimp only
      rcases (Analysis.rejection? ⟨t, config.oracle⟩ config.criteria).run (.blank t.size) with
        ⟨_ | c, memory⟩
      · dsimp only
        cases ((Analysis.classifyAllBy ⟨t, config.oracle⟩ config.catalog).run.run memory).1 <;> rfl
      · rfl

theorem recordNodes_count (counts : Counts) (t : Tree) (found : List RuleMatch) :
    (counts.count (exported t found)).recordNodes t = counts.after [exported t found] := by
  rw [Counts.count, Counts.foldl_recordMatch, Counts.recordNodes_eq]
  simp only [Counts.after, treesOf, patternsOf, List.filterMap_cons, List.filterMap_nil,
    List.flatMap_cons, List.flatMap_nil, List.append_nil, List.foldl_nil, tree?, error?,
    filterHit?, PatchOutcome.found]

/-- Files that are gone through leave the counts with what became of each of them. -/
theorem run_processPatches (ps : List PatchDiff) (counts : Counts) :
    (processPatches config ps).run counts =
      ((statesOf (ps.map (ofPatch config)), treesOf (ps.map (ofPatch config))),
        counts.after (ps.map (ofPatch config))) := by
  induction ps generalizing counts with
  | nil => rfl
  | cons p ps ih =>
      rw [processPatches, StateT.run_bind, run_processPatch, List.map_cons, Counts.after_cons]
      cases ofPatch config p with
      | exported t found =>
          rw [← recordNodes_count]
          exact congrArg (fun r => ((UnitState.exported :: r.1.1, t :: r.1.2), r.2))
            (ih ((counts.count (exported t found)).recordNodes t))
      | rejected c =>
          exact congrArg (fun r => ((UnitState.rejected :: r.1.1, r.1.2), r.2))
            (ih (counts.count (rejected c)))
      | failed kind =>
          exact congrArg (fun r => ((UnitState.failed :: r.1.1, r.1.2), r.2))
            (ih (counts.count (failed kind)))

/-! One commit. -/

/-- A pattern that is counted occurs. -/
theorem filterMap_tally (names : List String) :
    ((tally names).filterMap fun n => if n = 0 then none else some (PatternCount.mk n 1)) =
      (tally names).filterMap fun n => some ⟨n, 1⟩ := by
  ext1 name
  rw [KeyMap.get?_filterMap, KeyMap.get?_filterMap, get?_tally]
  split
  · rfl
  · next occurs => simp [occurs]

/-- A commit is empty or exported, whatever else was counted. -/
theorem Counts.finish_eq (counts : Counts) (exported : List Tree) :
    counts.finish exported =
      { (counts.result.recordFilterHits counts.rejections).recordPatterns counts.occurrences with
        exportedTrees := exported.length
        exportedCommits := if exported.isEmpty then counts.result.exportedCommits else 1
        emptyCommits := if exported.isEmpty then 1 else counts.result.emptyCommits } := by
  unfold finish
  cases exported.isEmpty <;> rfl

theorem Counts.finish_after (commit : String) (millis : Nat) (patches : List PatchOutcome) :
    (((start patches.length).after patches).finish (treesOf patches)).recordTime commit millis =
      CommitOutcome.resultOf commit millis patches := by
  have matched :=
    (KeyMap.empty_mergeWith (f := PatternCount.add) _).trans (filterMap_tally (patternsOf patches))
  have rejected : KeyMap.empty.add (tally (patches.filterMap filterHit?)) = _ :=
    KeyMap.empty_mergeWith _
  have spent := Nat.zero_add millis
  rw [finish_eq]
  dsimp only [MiningResult.recordTime, CommitOutcome.resultOf]
  congr 1

namespace CommitOutcome

/-- What is counted along the way of a commit is what became of its files. -/
theorem ofDiff_eq (config : Config) (millis : Nat) (d : CommitDiff) :
    ofDiff config millis d = ofPatches config d.commit millis (d.patches.map (ofPatch config)) := by
  unfold ofDiff
  rw [run_processPatches, ofPatches, ← Counts.finish_after, List.length_map]
  rfl

theorem unavailable_eq (commit message : String) :
    unavailable commit message = .ok (failed commit message) :=
  rfl

end CommitOutcome

end Variability.Mining
