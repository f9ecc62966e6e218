import Variability.DiffFilter
import Variability.Patch

/-!
The diff of a commit: the files that a filter accepts, each parsed into a tree or known not to be
one, and the number of files that the filter rejects.
-/

namespace Variability

structure PatchDiff where
  path : String
  change : FileChange
  tree : Except Patch.PatchError Tree

structure CommitDiff where
  commit : String
  /-- The accepted files, in the order of the diff. -/
  patches : List PatchDiff
  /-- The number of rejected files. -/
  rejected : Nat

namespace PatchDiff

def ofFile (commit : String) (d : FileDiff) : Except Fault PatchDiff :=
  (Patch.parse d.patch d.path commit).map fun tree => ⟨d.path, d.change, tree⟩

def isValid (p : PatchDiff) : Bool :=
  p.tree.isOk

end PatchDiff

namespace CommitDiff

def build (commit : String) (files : List FileDiff) (filter : DiffFilter) :
    Except Fault CommitDiff :=
  let accepted := files.filter filter.acceptsFile
  (accepted.mapM (PatchDiff.ofFile commit)).map fun patches =>
    ⟨commit, patches, files.length - accepted.length⟩

theorem commit_of_build {commit : String} {files : List FileDiff} {filter : DiffFilter}
    {d : CommitDiff} (built : build commit files filter = .ok d) : d.commit = commit := by
  simp only [build] at built
  cases read : (files.filter filter.acceptsFile).mapM (PatchDiff.ofFile commit) with
  | error fault =>
      rw [read] at built
      cases built
  | ok patches =>
      rw [read] at built
      cases built
      rfl

def trees (d : CommitDiff) : List Tree :=
  d.patches.filterMap fun p => p.tree.toOption

def errors (d : CommitDiff) : List Patch.PatchError :=
  d.patches.filterMap fun p =>
    match p.tree with
    | .error e => some e
    | .ok _ => none

end CommitDiff

end Variability
