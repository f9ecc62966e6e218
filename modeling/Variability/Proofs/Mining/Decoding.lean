import Variability.Proofs.FileDiff.Extent
import Variability.Proofs.LineGraph.Export
import Variability.Proofs.Mining.Bookkeeping

/-!
What a batch writes is read again. The files of a commit come from one diff, which bounds the ids of
its trees; every exported tree, and the graph of them, can be written; and the texts of the commits
stand one behind the other without a section running into the next one.
-/

namespace Variability

namespace LineGraph

theorem write_append (options : Options) (ts us : List Tree) :
    write options (ts ++ us) = write options ts ++ write options us := by
  rw [write, print, List.flatMap_append, Text.unlines_append, String.ofList_append]
  rfl

theorem foldl_write (options : Options) (tss : List (List Tree)) (before : String) :
    (tss.map (write options)).foldl (· ++ ·) before = before ++ write options tss.flatten := by
  induction tss generalizing before with
  | nil => exact String.append_empty.symm
  | cons ts tss ih =>
      rw [List.map_cons, List.foldl_cons, ih, List.flatten_cons, write_append, String.append_assoc]

end LineGraph

namespace Mining

open LineGraph PatchOutcome

/-! Files. -/

/-- The files that a history has for some commits were split off diffs, each of which fits into the
memory of a machine. -/
def SplitsDiffs {W : Type} (history : History (StateM W)) (commits : List CommitInfo) : Prop :=
  ∀ commit ∈ commits, ∀ w files, ((history.diff commit).run w).1 = .files files →
    ∃ diff : String, diff.length < Text.wordLimit ∧ files = FileDiff.split diff

/-- Texts that transforms put into labels stay on their lines. -/
def Config.LabelsOnLine (config : Config) : Prop :=
  ∀ label, .relabelRoot label ∈ config.transforms → '\n' ∉ label.toList

section Files

variable {config : Config} {commit : String} (labels : config.LabelsOnLine)
  (line : '\n' ∉ commit.toList)
include labels line

theorem PatchOutcome.OfFile.exportable {d : FileDiff} {p : PatchOutcome} {t : Tree}
    (made : OfFile config commit d p) (path : '\n' ∉ d.path.toList) (exports : p.tree? = some t) :
    Exportable d.extent t := by
  obtain ⟨tree, parsed, rfl⟩ := made
  cases tree with
  | error e => cases exports
  | ok tree =>
      cases eq_of_tree?_ofTree exports
      exact (exportable_of_parse parsed path line).applyAll labels

/-- The trees of some files stay within the lines of the files. -/
theorem exportable_of_files {files : List FileDiff} {patches : List PatchOutcome}
    (made : List.Forall₂ (PatchOutcome.OfFile config commit) files patches) {lines : Nat}
    (within : FileDiff.Within files lines) :
    (∀ t ∈ treesOf patches, Exportable lines t) ∧
      ((treesOf patches).map Tree.size).sum ≤ lines := by
  obtain ⟨paths, room⟩ := within
  constructor
  · intro t member
    obtain ⟨p, listed, exports⟩ := List.mem_filterMap.mp member
    obtain ⟨d, listedToo, became⟩ := exists_of_forall₂ made.flip listed
    have part : d.extent ≤ (files.map FileDiff.extent).sum :=
      List.le_sum_of_mem (List.mem_map_of_mem listedToo)
    exact (PatchOutcome.OfFile.exportable labels line became (paths d listedToo) exports).mono
      (part.trans room)
  · refine le_trans ?_ room
    clear room
    induction made with
    | nil => exact Nat.le_refl 0
    | @cons d p files patches first _ ih =>
        obtain ⟨path, paths⟩ := List.forall_mem_cons.mp paths
        have rest := ih paths
        rw [treesOf] at rest ⊢
        rw [List.map_cons, List.sum_cons]
        cases exports : p.tree? with
        | none =>
            rw [List.filterMap_cons_none exports]
            omega
        | some t =>
            have size := (first.exportable labels line path exports).size
            rw [List.filterMap_cons_some exports, List.map_cons, List.sum_cons]
            omega

end Files

/-! Commits. -/

/-- The trees that are written for a commit: all that it exports, or one graph of them. -/
def sectionTrees (shape : Shape) (commit : String) (trees : List Tree) : List Tree :=
  match shape with
  | .tree => trees
  | .graph => if trees.isEmpty then [] else [.commitGraph commit trees]

theorem writeTrees_eq (options : Options) (commit : String) (trees : List Tree) :
    writeTrees options commit trees = write options (sectionTrees options.shape commit trees) := by
  obtain ⟨shape, nodes⟩ := options
  cases shape with
  | tree => rfl
  | graph =>
      cases trees <;> rfl

/-- The trees that are read where those of a commit were written: all of them, or one graph if there
is more to them than roots. -/
def readTrees (shape : Shape) (commit : String) (trees : List Tree) : List Tree :=
  match shape with
  | .tree => trees
  | .graph => if trees.all Tree.isEmpty then [] else [.commitGraph commit trees]

/-- The trees made of what each of some commits exports, one commit after the other. -/
def alongside (trees : (commit : String) → List Tree → List Tree) (commits : List CommitInfo)
    (parts : List (List PatchOutcome)) : List Tree :=
  (List.zipWith (fun commit patches => trees commit.id (treesOf patches)) commits parts).flatten

theorem alongside_cons (trees : (commit : String) → List Tree → List Tree) (commit : CommitInfo)
    (commits : List CommitInfo) (patches : List PatchOutcome) (parts : List (List PatchOutcome)) :
    alongside trees (commit :: commits) (patches :: parts) =
      trees commit.id (treesOf patches) ++ alongside trees commits parts :=
  rfl

section Commit

variable {W : Type} {config : Config} {history : History (StateM W)} {clock : StateM W Nat}
  (labels : config.LabelsOnLine)
include labels

/-- The trees of a commit can be written, and those with nodes will be read. -/
theorem sectionTrees_of_became {commits : List CommitInfo} {commit : CommitInfo}
    {patches : List PatchOutcome} (line : '\n' ∉ commit.id.toList)
    (splits : SplitsDiffs history commits) (listed : commit ∈ commits)
    (became : Became config history clock commit patches) :
    (∀ t ∈ sectionTrees config.options.shape commit.id (treesOf patches),
      Printable config.options t ∧ ∀ s i, (t.children s i).Pairwise (· < ·)) ∧
    (sectionTrees config.options.shape commit.id (treesOf patches)).filter (!·.nodes.isEmpty) =
      readTrees config.options.shape commit.id (treesOf patches) := by
  obtain ⟨w, outcome, -, recorded⟩ := became
  obtain ⟨lines, room, within⟩ : ∃ lines < Text.wordLimit, FileDiff.Within
      (config.acceptedFiles commit ((history.diff commit).run (clock.run w).2).1) lines := by
    cases answer : ((history.diff commit).run (clock.run w).2).1 with
    | unavailable message | crashed message =>
        exact ⟨0, by decide, List.forall_mem_nil _, Nat.le_refl 0⟩
    | files files =>
        obtain ⟨diff, memory, rfl⟩ := splits commit listed _ files answer
        have bound := Text.length_lines_le diff.toList
        rw [String.length_toList] at bound
        refine ⟨_, Nat.lt_of_le_of_lt bound memory, ?_⟩
        rw [Config.acceptedFiles]
        split
        · exact (FileDiff.split_within diff).sublist List.filter_sublist
        · exact ⟨List.forall_mem_nil _, Nat.zero_le _⟩
  obtain ⟨exportable, size⟩ := exportable_of_files labels line recorded.made within
  cases shape : config.options.shape with
  | tree =>
      refine ⟨fun t member => ?_, List.filter_eq_self.mpr fun t member => ?_⟩
      · exact ⟨(exportable t member).printable room.le shape, (exportable t member).children⟩
      · rw [(exportable t member).isEmpty_nodes, Bool.not_false]
  | graph =>
      have graph := printable_commitGraph exportable commit.id line (size.trans room.le) shape
      have ordered := (ranked_commitGraph exportable commit.id).children
      rw [sectionTrees, readTrees, ← isEmpty_nodes_commitGraph exportable commit.id]
      cases none : (treesOf patches).isEmpty with
      | true => simp [List.isEmpty_iff.mp none, Tree.commitGraph, Tree.empty]
      | false =>
          refine ⟨by simpa using ⟨graph, ordered⟩, ?_⟩
          cases empty : (Tree.commitGraph commit.id (treesOf patches)).nodes.isEmpty <;>
            simp [empty]

/-- The trees of several commits, one commit after the other. -/
theorem read_write_parts {commits : List CommitInfo} {parts : List (List PatchOutcome)}
    (lines : ∀ commit ∈ commits, '\n' ∉ commit.id.toList) (splits : SplitsDiffs history commits)
    (became : List.Forall₂ (Became config history clock) commits parts) :
    ∃ us, read config.options
        (write config.options (alongside (sectionTrees config.options.shape) commits parts)) =
          .ok us ∧
      List.Forall₂ (Decoded config.options.nodes)
        (alongside (readTrees config.options.shape) commits parts) us := by
  have sections : (∀ t ∈ alongside (sectionTrees config.options.shape) commits parts,
      Printable config.options t ∧ ∀ s i, (t.children s i).Pairwise (· < ·)) ∧
    (alongside (sectionTrees config.options.shape) commits parts).filter (!·.nodes.isEmpty) =
      alongside (readTrees config.options.shape) commits parts := by
    induction became with
    | nil => exact ⟨nofun, rfl⟩
    | @cons commit patches commits parts first _ ih =>
        obtain ⟨line, lines⟩ := List.forall_mem_cons.mp lines
        obtain ⟨own, kept⟩ := sectionTrees_of_became labels line splits List.mem_cons_self first
        obtain ⟨others, keptToo⟩ :=
          ih lines fun commit listed => splits commit (List.mem_cons_of_mem _ listed)
        rw [alongside_cons, alongside_cons, List.filter_append, kept, keptToo]
        exact ⟨fun t member => (List.mem_append.mp member).elim (own t) (others t), rfl⟩
  obtain ⟨printable, kept⟩ := sections
  obtain ⟨us, read, each⟩ := exists_read_write fun t member => (printable t member).1
  refine ⟨us, read, ?_⟩
  rw [← kept]
  refine ((List.forall₂_and_left _ us).mpr ⟨fun t member => ?_, each⟩).imp fun t u both =>
    both.2.decoded both.1
  exact (printable t (List.mem_filter.mp member).1).2

end Commit

/-- The graphs of the commits of which more than roots is exported. -/
def graphsOf (commits : List CommitInfo) (parts : List (List PatchOutcome)) : List Tree :=
  ((commits.zip parts).filter fun (_, patches) => (treesOf patches).any (!·.isEmpty)).map
    fun (commit, patches) => .commitGraph commit.id (treesOf patches)

theorem alongside_graph (commits : List CommitInfo) (parts : List (List PatchOutcome)) :
    alongside (readTrees .graph) commits parts = graphsOf commits parts := by
  induction commits generalizing parts with
  | nil => rfl
  | cons commit commits ih =>
      cases parts with
      | nil => rfl
      | cons patches parts =>
          rw [alongside_cons, ih, graphsOf, graphsOf, List.zip_cons_cons, readTrees,
            List.all_eq_not_any_not]
          cases nodes : (treesOf patches).any (!·.isEmpty) <;> simp [nodes]

theorem alongside_tree {commits : List CommitInfo} {parts : List (List PatchOutcome)}
    (length : commits.length = parts.length) :
    alongside (readTrees .tree) commits parts = parts.flatMap treesOf := by
  induction commits generalizing parts with
  | nil =>
      obtain rfl := List.length_eq_zero_iff.mp length.symm
      rfl
  | cons commit commits ih =>
      cases parts with
      | nil => cases length
      | cons patches parts =>
          rw [alongside_cons, ih (Nat.succ.inj length), List.flatMap_cons, readTrees]

/-- What is read where the line graph of a batch was written: all trees that are exported, one
after the other, or the graphs of the commits of which more than roots is exported. -/
structure BatchDecoded (options : Options) (commits : List CommitInfo)
    (parts : List (List PatchOutcome)) (result : MiningResult) (us : List Tree) : Prop where
  balances : result.Balances parts.flatten
  count : options.shape = .tree → us.length = result.exportedTrees
  trees : options.shape = .tree → List.Forall₂ (Decoded options.nodes) (parts.flatMap treesOf) us
  graphs : options.shape = .graph → List.Forall₂ (Decoded options.nodes) (graphsOf commits parts) us

section Batch

variable {W : Type} {config : Config} {history : History (StateM W)} {clock : StateM W Nat}

theorem write_of_outcomes {commits : List CommitInfo} {parts : List (List PatchOutcome)}
    {outcomes : List CommitOutcome}
    (texts : outcomes.map (·.lineGraph) = List.zipWith
      (fun commit patches => writeTrees config.options commit.id (treesOf patches)) commits parts) :
    (outcomes.map (·.lineGraph)).foldl (· ++ ·) "" =
      write config.options (alongside (sectionTrees config.options.shape) commits parts) := by
  simp only [writeTrees_eq] at texts
  rw [texts, ← List.map_zipWith, foldl_write, String.empty_append, alongside]

theorem decoded_of_processCommits (labels : config.LabelsOnLine) {commits : List CommitInfo}
    (lines : ∀ commit ∈ commits, '\n' ∉ commit.id.toList) (splits : SplitsDiffs history commits)
    {w : W} {result : MiningResult} {text : String}
    (run : ((processCommits config history clock .empty "" commits).run w).1 =
      .ok (result, text)) :
    ∃ parts us, List.Forall₂ (Became config history clock) commits parts ∧
      read config.options text = .ok us ∧ BatchDecoded config.options commits parts result us := by
  obtain ⟨outcomes, each, total, rfl⟩ := outcomes_of_processCommits commits run
  obtain ⟨-, rfl⟩ := MiningResult.empty_appendAll_eq_ok_iff.mp total
  obtain ⟨parts, became, balances, texts⟩ := parts_of_outcomes each
  obtain ⟨us, read, decoded⟩ := read_write_parts labels lines splits became
  rw [← write_of_outcomes texts] at read
  have trees (tree : config.options.shape = .tree) :
      List.Forall₂ (Decoded config.options.nodes) (parts.flatMap treesOf) us := by
    rwa [tree, alongside_tree became.length_eq] at decoded
  refine ⟨parts, us, became, read, balances, fun tree => ?_, trees, fun graph => ?_⟩
  · rw [← (trees tree).length_eq, balances.trees, treesOf, List.filterMap_flatten,
      List.flatMap_def]
    rfl
  · rwa [graph, alongside_graph] at decoded

/-- Whatever a batch hands to the sink is read again, with the options that it was written with: the
trees that its commits exported or the graphs of them, in order, with their ids, kinds, edits and
links. -/
theorem batch_decodes (labels : config.LabelsOnLine) (batch : Batch)
    (lines : ∀ commit ∈ batch.commits, '\n' ∉ commit.id.toList)
    (splits : SplitsDiffs history batch.commits) (clock : StateM W Nat) (sink : Sink (StateM W))
    (w : W) :
    (∃ fault w', (processBatch config history clock sink batch).run w = (.error fault, w')) ∨
      ∃ result text w',
        (processCommits config history clock .empty "" batch.commits).run w =
          (.ok (result, text), w') ∧
        (processBatch config history clock sink batch).run w =
          (.ok (((sink.writeBatch batch.id text result).run w').1.map fun _ => result),
            ((sink.writeBatch batch.id text result).run w').2) ∧
        ∃ parts us, List.Forall₂ (Became config history clock) batch.commits parts ∧
          read config.options text = .ok us ∧
          BatchDecoded config.options batch.commits parts result us := by
  rw [processBatch, run_bind]
  cases processed : (processCommits config history clock .empty "" batch.commits).run w with
  | mk answer w' =>
    cases answer with
    | error fault => exact .inl ⟨fault, w', rfl⟩
    | ok mined =>
        obtain ⟨result, text⟩ := mined
        refine .inr ⟨result, text, w', rfl, ?_,
          decoded_of_processCommits labels lines splits (congrArg Prod.fst processed)⟩
        dsimp only
        rw [run_bind]
        cases (sink.writeBatch batch.id text result).run w' with
        | mk said w'' => cases said <;> rfl

end Batch

/-- Two commits, of the second of which nothing but the root is left by the cut. -/
theorem batch_decodes_root_alone :
    let config : Config := { Config.standard with
      criteria := []
      transforms := [.cutUnedited, .relabelRoot "file"] }
    let diffs (commit : CommitInfo) : String :=
      if commit.id = "a" then "--- a/f.c\n+++ b/f.c\n@@ -1,2 +1,3 @@\n #if A\n+x_y\r\n #endif\n"
      else "--- a/g.c\n+++ b/g.c\n@@ -1 +1 @@\n z\n"
    let history : History (StateM (List String)) :=
      .ofDiffs [] fun commit => .files (FileDiff.split (diffs commit))
    let sink : Sink (StateM (List String)) :=
      ⟨fun _ text _ => do modify (text :: ·); return .ok (), fun _ => return .ok ()⟩
    ∃ result text before t u, (processBatch config history (pure 0) sink
        ⟨0, "a", [⟨"a", 1⟩, ⟨"b", 1⟩]⟩).run [] = (.ok (.ok result), text :: before) ∧
      result.exportedTrees = 2 ∧ read config.options text = .ok [t, u] := by
  intro config diffs history sink
  have exported : (match ((processBatch config history (pure 0) sink
      ⟨0, "a", [⟨"a", 1⟩, ⟨"b", 1⟩]⟩).run []).1 with
    | .ok (.ok result) => decide (result.exportedTrees = 2)
    | _ => false) = true := by decide +kernel
  have splits : SplitsDiffs history [⟨"a", 1⟩, ⟨"b", 1⟩] := by
    intro commit _ w files answer
    cases answer
    refine ⟨diffs commit, ?_, rfl⟩
    simp only [diffs]
    split <;> decide
  have labels : config.LabelsOnLine := by simp [Config.LabelsOnLine, config]
  obtain ⟨fault, w', failed⟩ |
      ⟨result, text, w', processed, handed, parts, us, -, accepted, decoded⟩ :=
    batch_decodes labels ⟨0, "a", [⟨"a", 1⟩, ⟨"b", 1⟩]⟩ (by simp) splits (pure 0) sink []
  · rw [failed] at exported
    cases exported
  · rw [handed] at exported
    have two : result.exportedTrees = 2 := of_decide_eq_true exported
    obtain ⟨t, u, rfl⟩ := List.length_eq_two.mp ((decoded.count rfl).trans two)
    exact ⟨result, text, w', t, u, handed, two, accepted⟩

end Mining

end Variability
