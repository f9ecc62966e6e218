import Variability.CommitDiff
import Variability.Criterion
import Variability.LineGraph.Writer
import Variability.MiningResult
import Variability.Mining.UnitState
import Variability.Rule
import Variability.Transform

/-!
What mining makes of one commit. Every accepted file is parsed, tried on the tree filter and
classified, as far as it gets, and what happens is counted when it happens: errors in the result of
the commit at once, rejections and matches apart, until all files are done. The line graph of the
commit is that of the trees that got through.
-/

namespace Variability.Mining

structure Config where
  batchSize : Nat
  filter : DiffFilter
  criteria : List Criterion
  /-- Applied to every tree before it is filtered. -/
  transforms : List Transform
  options : LineGraph.Options
  catalog : Catalog
  maxVariables : Nat
  /-- The oracle for formulas of so many features. -/
  engine : Nat → Oracle := .bounded

namespace Config

def defaultBatchSize : Nat := 1000

def standard : Config where
  batchSize := defaultBatchSize
  filter := .standard
  criteria := Criterion.standard
  transforms := []
  options := .standard
  catalog := EditPattern.elementary
  maxVariables := Oracle.defaultMaxVariables

def oracle (config : Config) : Oracle :=
  config.engine config.maxVariables

end Config

/-- What has been counted of a commit while its files are gone through. -/
structure Counts where
  result : MiningResult
  /-- Rejections by criterion. -/
  rejections : KeyMap Nat
  /-- Matches by pattern. -/
  occurrences : KeyMap Nat

namespace Counts

/-- The statistics of a commit of which nothing else is known yet. -/
def listed : MiningResult :=
  { MiningResult.empty with totalCommits := 1 }

/-- Before the first of so many files. -/
def start (files : Nat) : Counts :=
  ⟨{ listed with totalPatches := files }, .empty, .empty⟩

def recordDiffError (counts : Counts) (kind : String) : Counts :=
  { counts with result := counts.result.recordDiffError kind }

def recordMatch (counts : Counts) (found : RuleMatch) : Counts :=
  { counts with occurrences := counts.occurrences.bump found.rule }

/-- Counts the nodes of a tree besides its root. -/
def recordNodes (counts : Counts) (t : Tree) : Counts :=
  let record (result : MiningResult) (node : Node) : MiningResult :=
    if node.kind ≠ .root then result.recordNode node.edit else result
  { counts with result := t.nodes.foldl record counts.result }

/-- What is recorded when all files are done. -/
def finish (counts : Counts) (exported : List Tree) : MiningResult :=
  let result := counts.result.recordFilterHits counts.rejections
  let result := result.recordPatterns counts.occurrences
  let result := { result with exportedTrees := exported.length }
  if exported.isEmpty then { result with emptyCommits := 1 }
  else { result with exportedCommits := 1 }

end Counts

def classificationKind : String :=
  "classification"

/-- Takes a file as far as it gets. The tree is there if every line of code has a pattern. -/
def processPatch (config : Config) (p : PatchDiff) : StateM Counts (UnitState × Option Tree) := do
  let state := UnitState.pending
  match p.tree with
  | .error e =>
    modify (·.recordDiffError e.kind)
    return (.failed, none)
  | .ok parsed =>
    let state := state.advance
    let t := Transform.applyAll config.transforms parsed
    let a : Analysis := ⟨t, config.oracle⟩
    let counts ← get
    let ((passed, rejections), memory) :=
      (a.test config.criteria counts.rejections).run (.blank t.size)
    set { counts with rejections }
    if !passed then
      return (.rejected, none)
    else
      let state := state.advance
      match ((a.classifyAllBy config.catalog).run.run memory).1 with
      | .ok found =>
        modify fun counts => found.foldl Counts.recordMatch counts
        return (state.advance, some t)
      | .error _ =>
        modify (·.recordDiffError classificationKind)
        return (.failed, none)

/-- Takes the files of a commit one after the other: where each of them ends, and the trees that are
exported. -/
def processPatches (config : Config) :
    List PatchDiff → StateM Counts (List UnitState × List Tree)
  | [] => return ([], [])
  | p :: ps => do
    match ← processPatch config p with
    | (.classified, some t) =>
      modify (·.recordNodes t)
      let (states, exported) ← processPatches config ps
      return (UnitState.classified.advance :: states, t :: exported)
    | (state, _) =>
      let (states, exported) ← processPatches config ps
      return (state :: states, exported)

/-- The line graph of the trees of a commit: one section a tree, or one for the whole graph. -/
def writeTrees (options : LineGraph.Options) (commit : String) (trees : List Tree) : String :=
  match options.shape with
  | .tree => LineGraph.write options trees
  | .graph => if trees.isEmpty then "" else LineGraph.write options [.commitGraph commit trees]

structure CommitOutcome where
  /-- Statistics of the commit alone. -/
  result : MiningResult
  lineGraph : String
  /-- Where each accepted file ended, in the order of the diff. -/
  states : List UnitState

namespace CommitOutcome

def filtered : CommitOutcome :=
  ⟨{ Counts.listed with filteredCommits := 1 }, "", []⟩

def unavailable (commit message : String) : Except Fault CommitOutcome :=
  (Counts.listed.recordFailure commit message).map fun result => ⟨result, "", []⟩

/-- Mines the files of a commit. -/
def ofDiff (config : Config) (millis : Nat) (d : CommitDiff) : CommitOutcome :=
  let ((states, exported), counts) :=
    (processPatches config d.patches).run (.start d.patches.length)
  { result := (counts.finish exported).recordTime d.commit millis
    lineGraph := writeTrees config.options d.commit exported
    states }

end CommitOutcome

end Variability.Mining
