import Variability.Proofs.Patch.Exchange
import Variability.Proofs.Tree.Transformed

/-!
Trees that are exported. What makes the tree of a patch one that can be written and read stays with
it through all transforms, and the graph of a commit has it from the trees of the files. Children
stand in the order of the array in all of them, so that every node is read with its links as they
were.
-/

namespace Variability.LineGraph

open Text (dropReturn)

theorem Lettered.of_content_eq {m n : Node} (lettered : Lettered n)
    (same : m.content = n.content) : Lettered m := by
  have label : m.label = n.label := by rw [← m.content_label, same, n.content_label]
  have kind : m.kind = n.kind := by rw [← m.content_kind, same, n.content_kind]
  have guard : m.guard = n.guard := by rw [← m.content_guard, same, n.content_guard]
  constructor
  · rw [label]
    exact lettered.line
  · rw [kind, label, guard]
    exact lettered.guarded
  · rw [kind, guard]
    exact lettered.unguarded

theorem Lettered.readable_in {n : Node} (lettered : Lettered n) (format : NodeFormat) :
    format.Readable n := by
  rintro rfl
  exact lettered.readable rfl

theorem lettered_default : Lettered default :=
  ⟨by decide, nofun, fun _ => rfl⟩

theorem lettered_restrict {t : Tree} (lettered : ∀ i, Lettered (t.node i))
    (keep : Nat → Node → Bool) (j : Nat) : Lettered ((t.restrict keep).node j) := by
  rcases Nat.lt_or_ge j (t.restrict keep).size with inside | outside
  · obtain ⟨i, placed⟩ := t.exists_place_restrict keep inside
    exact (lettered i).of_content_eq ((t.embeds_restrict keep).content placed)
  · rw [Tree.node_of_size_le outside]
    exact lettered_default

/-- A tree of a file that can be written and read: it is well formed with its nodes in order, its
labels are lines, and its ids and their number stay within a bound. -/
structure Exportable (bound : Nat) (t : Tree) : Prop extends t.Ranked where
  shape : t.shape = .tree
  flawless : t.firstFlaw? = none
  lettered : ∀ i, Lettered (t.node i)
  source : '\n' ∉ printSource t.source
  size : t.size ≤ bound
  ids : ∀ i < t.size, (t.node i).id < bound

theorem exportable_of_parse {text path commit : String} {t : Tree}
    (parsed : Patch.parse text path commit = .ok (.ok t)) (pathLine : '\n' ∉ path.toList)
    (commitLine : '\n' ∉ commit.toList) :
    Exportable ((Text.lines text.toList).length + 1) t := by
  have accepted := Patch.accepted_of_parse parsed
  have overlays := accepted.overlays
  have lines : ∀ e ∈ Patch.entriesOf text, e.kind ≠ .root :=
    fun e member => (accepted.proper e member).line
  have entries : (Patch.entriesOf text).length ≤ (Text.lines text.toList).length :=
    Patch.length_entries_le none 1 none _
  have size := overlays.size
  obtain ⟨hunk, source, -⟩ := Patch.exists_source_of_parse parsed
  refine ⟨⟨overlays.interlinked lines, overlays.parentsFirst, fun s i => ?_⟩, overlays.shape,
    overlays.firstFlaw?_eq_none lines, lettered_node (Patch.lettered_of_parse parsed), ?_,
    by omega, fun i inside => ?_⟩
  · rw [overlays.children]
    exact List.pairwise_lt_range.filter _
  · have plain (range : HunkRange) : '\n' ∉ range.print :=
      HunkRange.not_mem_print (by decide) (by decide)
    rw [source]
    cases hunk <;> simp [printSource, sourceMark, pathLine, commitLine, plain]
  · rw [overlays.id_eq inside]
    omega

namespace Exportable

variable {bound : Nat} {t : Tree} (exportable : Exportable bound t)
include exportable

theorem mono {more : Nat} (wider : bound ≤ more) : Exportable more t where
  toRanked := exportable.toRanked
  shape := exportable.shape
  flawless := exportable.flawless
  lettered := exportable.lettered
  source := exportable.source
  size := exportable.size.trans wider
  ids := fun i inside => Nat.lt_of_lt_of_le (exportable.ids i inside) wider

theorem exists_root : ∃ i < t.size, (t.node i).kind = .root := by
  obtain ⟨i, ⟨inside, root⟩, -⟩ :=
    (Tree.firstFlaw?_eq_none_iff_wellFormed.mp exportable.flawless).oneRoot exportable.shape
  exact ⟨i, inside, root⟩

theorem isEmpty_nodes : t.nodes.isEmpty = false := by
  obtain ⟨i, inside, -⟩ := exportable.exists_root
  rw [Array.isEmpty_eq_false_iff]
  intro none
  rw [Tree.size, none] at inside
  cases inside

theorem relabelRoot {label : String} (line : '\n' ∉ label.toList) :
    Exportable bound (t.relabelRoot label) where
  toRanked := exportable.toRanked.relabelRoot exportable.flawless label
  shape := by rw [Tree.shape_relabelRoot, exportable.shape]
  flawless := by rw [Tree.firstFlaw?_relabelRoot, exportable.flawless]
  lettered := by
    intro i
    have lettered := exportable.lettered i
    obtain ⟨text, same, rfl | ⟨rfl, root⟩⟩ := Tree.node_relabelRoot label t i
    · rwa [same]
    · rw [same]
      refine ⟨line, fun guarded => ?_, lettered.unguarded⟩
      rw [root] at guarded
      cases guarded
  source := by rw [Tree.source_relabelRoot]; exact exportable.source
  size := by rw [Tree.size_relabelRoot]; exact exportable.size
  ids := by
    intro i inside
    rw [Tree.size_relabelRoot] at inside
    obtain ⟨text, same, -⟩ := Tree.node_relabelRoot label t i
    rw [same]
    exact exportable.ids i inside

theorem restrict {keep : Nat → Node → Bool} (flawless : (t.restrict keep).firstFlaw? = none) :
    Exportable bound (t.restrict keep) where
  toRanked := Tree.gathers_ranked.restrict exportable.toRanked keep
  shape := exportable.shape
  flawless := flawless
  lettered := lettered_restrict exportable.lettered keep
  source := exportable.source
  size := (t.size_restrict_le keep).trans exportable.size
  ids := by
    intro j inside
    obtain ⟨i, placed⟩ := t.exists_place_restrict keep inside
    rw [← Node.bare_id, Tree.bare_restrict placed]
    exact exportable.ids i (Tree.lt_size_of_place? placed)

theorem cutUnedited : Exportable bound t.cutUnedited := by
  have flawless := Tree.firstFlaw?_cutUnedited exportable.flawless
  rw [Tree.cutUnedited] at flawless ⊢
  exact exportable.restrict flawless

theorem applyAll {transforms : List Transform}
    (lines : ∀ label, .relabelRoot label ∈ transforms → '\n' ∉ label.toList) :
    Exportable bound (Transform.applyAll transforms t) := by
  induction transforms generalizing t with
  | nil => exact exportable
  | cons transform transforms ih =>
      have rest : ∀ label, .relabelRoot label ∈ transforms → '\n' ∉ label.toList :=
        fun label member => lines label (List.mem_cons_of_mem _ member)
      cases transform with
      | relabelRoot label => exact ih (exportable.relabelRoot (lines label List.mem_cons_self)) rest
      | cutUnedited => exact ih exportable.cutUnedited rest

theorem printable (room : bound ≤ Text.wordLimit) {options : Options}
    (tree : options.shape = .tree) : Printable options t where
  shape := exportable.shape.trans tree.symm
  flawless := exportable.flawless
  source := exportable.source
  words := by
    intro n member
    obtain ⟨i, inside, rfl⟩ := Tree.mem_nodes.mp member
    exact Nat.lt_of_lt_of_le (exportable.ids i inside) room
  readable := by
    intro n member
    obtain ⟨i, -, rfl⟩ := Tree.mem_nodes.mp member
    exact (exportable.lettered i).readable_in options.nodes

end Exportable

/-! The graph of a commit. -/

section Graph

variable {bound : Nat} {ts : List Tree} (exportable : ∀ t ∈ ts, Exportable bound t)
  (commit : String)
include exportable

theorem ranked_commitGraph : (Tree.commitGraph commit ts).Ranked :=
  Tree.gathers_ranked.commitGraph (fun t listed => (exportable t listed).toRanked)
    commit

theorem lettered_commitGraph :
    ∀ i < (Tree.commitGraph commit ts).size, Lettered ((Tree.commitGraph commit ts).node i) := by
  refine Tree.commitGraph_induction (P := fun g => ∀ i < g.size, Lettered (g.node i))
    (fun _ inside => by cases inside) fun g lettered t listed i inside => ?_
  rcases Tree.append_position inside with left | ⟨k, right, rfl⟩
  · rw [Tree.node_append_left left]
    exact lettered i left
  · have exports := exportable t listed
    rw [Tree.node_append_right g right]
    have own : Lettered (t.toGraph.node k) := by
      rw [Tree.toGraph, exports.shape]
      exact lettered_restrict exports.lettered (fun _ n => n.kind ≠ .root) k
    exact own.of_content_eq rfl

theorem printable_commitGraph (line : '\n' ∉ commit.toList)
    (room : (ts.map Tree.size).sum ≤ Text.wordLimit) {options : Options}
    (graph : options.shape = .graph) : Printable options (Tree.commitGraph commit ts) where
  shape := (Tree.shape_commitGraph commit ts).trans graph.symm
  flawless := Tree.firstFlaw?_commitGraph (fun t listed => (exportable t listed).flawless) commit
  source := by
    rw [Tree.source_commitGraph]
    simp [printSource, sourceMark, line]
  words := by
    intro n member
    obtain ⟨i, inside, rfl⟩ := Tree.mem_nodes.mp member
    rw [Tree.id_commitGraph commit ts i inside]
    have size := Tree.size_commitGraph commit ts
    have parts : (ts.map fun t => t.toGraph.size).sum ≤ (ts.map Tree.size).sum :=
      List.sum_le_sum fun t _ => t.size_toGraph_le
    omega
  readable := by
    intro n member
    obtain ⟨i, inside, rfl⟩ := Tree.mem_nodes.mp member
    exact (lettered_commitGraph exportable commit i inside).readable_in options.nodes

/-- The graph of a commit has nodes as soon as one of its trees has more than a root. -/
theorem isEmpty_nodes_commitGraph :
    (Tree.commitGraph commit ts).nodes.isEmpty = ts.all Tree.isEmpty := by
  rw [Array.isEmpty, Bool.eq_iff_iff, decide_eq_true_eq, ← Tree.size, Tree.size_commitGraph,
    List.sum_eq_zero_iff, List.forall_mem_map, List.all_eq_true]
  refine forall₂_congr fun t listed => ?_
  exact Tree.size_toGraph_eq_zero_iff (exportable t listed).shape

end Graph

/-- What is read where a tree was written: the same nodes with the same ids, kinds, edits and links,
as much of a label as its line keeps, and as much of the source as the header tells. -/
structure Decoded (format : NodeFormat) (t u : Tree) : Prop where
  shape : u.shape = t.shape
  size : u.size = t.size
  frame : ∀ i, (u.node i).frame = (t.node i).frame
  node : ∀ i, u.node i = format.reread (t.node i)
  source : u.source = readSource (dropReturn (printSource t.source))

theorem Rewritten.decoded {format : NodeFormat} {t u : Tree} (rewritten : Rewritten format t u)
    (ordered : ∀ s i, (t.children s i).Pairwise (· < ·)) : Decoded format t u := by
  have same := rewritten.eq_of_ordered ordered
  have node (i : Nat) : u.node i = format.reread (t.node i) := by
    rw [← node_reread, same]
    rfl
  refine ⟨?_, ?_, fun i => ?_, node, rewritten.source⟩
  · rw [same]
    rfl
  · rw [same]
    exact size_reread format t
  · rw [node, NodeFormat.frame_reread]

end Variability.LineGraph
