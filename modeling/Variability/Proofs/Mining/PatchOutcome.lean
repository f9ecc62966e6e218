import Variability.Mining.CommitOutcome

/-!
What becomes of the files of a commit, one by one, and what the commit comes to in their terms.
Every file is exported, rejected or fails, whatever the others do, and a count is the number of
files, nodes or matches that it is about.
-/

namespace Variability.Mining

inductive PatchOutcome where
  | exported (tree : Tree) (found : List RuleMatch)
  | rejected (criterion : Criterion)
  | failed (kind : String)

namespace PatchOutcome

def ofTree (config : Config) (t : Tree) : PatchOutcome :=
  let a : Analysis := ⟨t, config.oracle⟩
  match (a.rejection? config.criteria).run (.blank t.size) with
  | (some criterion, _) => rejected criterion
  | (none, memory) =>
    match ((a.classifyAllBy config.catalog).run.run memory).1 with
    | .ok found => exported t found
    | .error _ => failed classificationKind

def ofPatch (config : Config) (p : PatchDiff) : PatchOutcome :=
  match p.tree with
  | .error e => failed e.kind
  | .ok t => ofTree config (Transform.applyAll config.transforms t)

def state : PatchOutcome → UnitState
  | exported .. => .exported
  | rejected _ => .rejected
  | failed _ => .failed

def tree? : PatchOutcome → Option Tree
  | exported tree _ => some tree
  | rejected _ | failed _ => none

def found : PatchOutcome → List RuleMatch
  | exported _ found => found
  | rejected _ | failed _ => []

def filterHit? : PatchOutcome → Option String
  | rejected criterion => some criterion.explanationKey
  | exported .. | failed _ => none

def error? : PatchOutcome → Option String
  | failed kind => some kind
  | exported .. | rejected _ => none

end PatchOutcome

def exportedEdits (t : Tree) : List Edit :=
  (t.nodes.toList.filter (·.kind ≠ .root)).map (·.edit)

def tally (names : List String) : KeyMap Nat :=
  names.foldl KeyMap.bump .empty

namespace CommitOutcome

def failed (commit message : String) : CommitOutcome :=
  let failures := KeyMap.single commit (MiningResult.singleLine message)
  ⟨{ MiningResult.empty with totalCommits := 1, failedCommits := 1, failures }, "", []⟩

def resultOf (commit : String) (millis : Nat) (patches : List PatchOutcome) : MiningResult :=
  let trees := patches.filterMap PatchOutcome.tree?
  let names := patches.flatMap fun p => p.found.map (·.rule)
  { MiningResult.empty with
    totalCommits := 1
    exportedCommits := if trees.isEmpty then 0 else 1
    emptyCommits := if trees.isEmpty then 1 else 0
    totalPatches := patches.length
    exportedTrees := trees.length
    exportedNodes := tally ((trees.flatMap exportedEdits).map Edit.token)
    patternCounts := (tally names).filterMap fun n => some ⟨n, 1⟩
    filterHits := tally (patches.filterMap PatchOutcome.filterHit?)
    diffErrors := tally (patches.filterMap PatchOutcome.error?)
    fastest := some ⟨commit, millis⟩
    slowest := some ⟨commit, millis⟩
    runtimeMillis := millis }

def ofPatches (config : Config) (commit : String) (millis : Nat) (patches : List PatchOutcome) :
    CommitOutcome where
  result := resultOf commit millis patches
  lineGraph := writeTrees config.options commit (patches.filterMap PatchOutcome.tree?)
  states := patches.map PatchOutcome.state

end CommitOutcome

def patchOutcomes (config : Config) (commit : String) (files : List FileDiff) :
    Except Fault (List PatchOutcome) :=
  (CommitDiff.build commit files config.filter).map fun d =>
    d.patches.map (PatchOutcome.ofPatch config)

end Variability.Mining
