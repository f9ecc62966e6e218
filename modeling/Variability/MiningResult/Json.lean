import Variability.Json
import Variability.MiningResult

/-!
Results as JSON values, with a member for every part of a result in a fixed order.
-/

namespace Variability

def KeyMap.toJson {α : Type} (f : α → Json) (m : KeyMap α) : Json :=
  .object (m.entries.map fun (key, value) => (key, f value))

def PatternCount.toJson (c : PatternCount) : Json :=
  .object [("occurrences", .number c.occurrences), ("commits", .number c.commits)]

def CommitTime.toJson (t : CommitTime) : Json :=
  .object [("commit", .string t.commit), ("millis", .number t.millis)]

def MiningResult.toJson (r : MiningResult) : Json :=
  .object
    [("total_commits", .number r.totalCommits),
      ("exported_commits", .number r.exportedCommits),
      ("empty_commits", .number r.emptyCommits),
      ("failed_commits", .number r.failedCommits),
      ("filtered_commits", .number r.filteredCommits),
      ("total_patches", .number r.totalPatches),
      ("exported_trees", .number r.exportedTrees),
      ("exported_nodes", r.exportedNodes.toJson .number),
      ("pattern_counts", r.patternCounts.toJson PatternCount.toJson),
      ("filter_hits", r.filterHits.toJson .number),
      ("diff_errors", r.diffErrors.toJson .number),
      ("failures", r.failures.toJson .string),
      ("fastest", .ofOption CommitTime.toJson r.fastest),
      ("slowest", .ofOption CommitTime.toJson r.slowest),
      ("runtime_millis", .number r.runtimeMillis),
      ("runtime_with_multithreading_millis", .number r.wallMillis)]

end Variability
