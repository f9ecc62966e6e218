import Variability.Proofs.LineGraph.Section

/-!
Reading back what was written. Every section gives its tree back, one section after the other, and
one without nodes gives none; so a line graph is read as the list of trees that it was written for,
as far as the labels tell them, and with the children of every node in the order of the array.
-/

namespace Variability

namespace LineGraph

open Text (dropReturn)

/-- A tree of which every line can be written and read again. -/
structure Printable (options : Options) (t : Tree) : Prop where
  shape : t.shape = options.shape
  flawless : t.firstFlaw? = none
  source : '\n' ∉ printSource t.source
  words : ∀ n ∈ t.nodes, n.id < Text.wordLimit
  readable : ∀ n ∈ t.nodes, options.nodes.Readable n

/-- A tree whose nodes and edges can be written and read again. -/
structure Framed (options : Options) (t : Tree) : Prop where
  nonempty : t.nodes ≠ #[]
  shape : t.shape = options.shape
  flawless : t.firstFlaw? = none
  ordered : ∀ n ∈ t.nodes, ∀ s, (n.children s).Pairwise (· < ·)
  source : Writable t.source
  words : ∀ n ∈ t.nodes, n.id < Text.wordLimit

/-- A tree whose labels, too, can be written and read again. -/
structure Legible (options : Options) (t : Tree) : Prop extends Framed options t where
  readable : ∀ n ∈ t.nodes, options.nodes.Readable n

/-- What a tree is once it is written and read again. -/
def reread (format : NodeFormat) (t : Tree) : Tree :=
  t.mapNodes format.reread

section Recall

variable (format : NodeFormat) (t : Tree)

theorem frame_reread : (reread format t).frame = t.frame := by
  rw [reread, Tree.frame, Tree.mapNodes_mapNodes, Tree.frame]
  exact congrArg t.mapNodes (funext fun n => format.frame_reread n)

theorem firstFlaw?_reread : (reread format t).firstFlaw? = t.firstFlaw? := by
  rw [← Tree.firstFlaw?_frame, frame_reread, Tree.firstFlaw?_frame]

@[simp] theorem size_reread : (reread format t).size = t.size :=
  Tree.size_mapNodes _ t

@[simp] theorem id_node_reread (i : Nat) : ((reread format t).node i).id = (t.node i).id := by
  have same : ((reread format t).frame.node i).id = (t.frame.node i).id := by rw [frame_reread]
  rw [Tree.node_frame, Tree.node_frame] at same
  exact same

@[simp] theorem children_reread (s : Side) (i : Nat) :
    (reread format t).children s i = t.children s i := by
  rw [← Tree.children_frame, frame_reread, Tree.children_frame]

theorem edgeLines_reread (n : Node) :
    edgeLines (reread format t) (format.reread n) = edgeLines t n := by
  have parents (s : Side) : parentId (reread format t) (format.reread n) s = parentId t n s := by
    simp [parentId]
  unfold edgeLines
  rw [parents, parents, NodeFormat.id_reread]

theorem flatMap_edgeLines :
    t.nodes.toList.flatMap (edgeLines t) =
      (List.range (reread format t).size).flatMap fun i =>
        edgeLines (reread format t) ((reread format t).node i) := by
  rw [Tree.nodes_toList, List.flatMap_map, size_reread]
  apply List.flatMap_congr
  intro i inside
  rw [reread, Tree.node_mapNodes_of_lt (List.mem_range.mp inside), ← reread, edgeLines_reread]

end Recall

/-- What is read where a tree was written: its nodes, with children in order, and as much of its
source as the header tells. -/
structure Rewritten (format : NodeFormat) (t u : Tree) : Prop extends
    (reread format t).Arranged u where
  source : u.source = readSource (dropReturn (printSource t.source))

namespace Rewritten

variable {format : NodeFormat} {t u : Tree} (rewritten : Rewritten format t u)
include rewritten

/-- The section of a tree without nodes counts for nothing. -/
theorem close_eq (flawless : t.firstFlaw? = none) (n : Nat) :
    close (some ⟨n, u⟩) = .ok (if t.nodes.isEmpty then [] else [u]) := by
  have size : u.size = t.size := rewritten.size.trans (size_reread format t)
  have same : u.nodes.isEmpty = t.nodes.isEmpty := by
    rw [Tree.size, Tree.size] at size
    rw [Array.isEmpty, Array.isEmpty, size]
  have flawlessToo : u.firstFlaw? = none :=
    rewritten.firstFlaw?_eq_none (by rw [firstFlaw?_reread, flawless])
  rw [close, same, flawlessToo]
  split <;> rfl

/-- Where children stood in order already, nothing but the source can have changed. -/
theorem eq_of_ordered (ordered : ∀ s i, (t.children s i).Pairwise (· < ·)) :
    u = { reread format t with source := u.source } := by
  have arranged := rewritten.toArranged
  refine Tree.ext_views arranged.size arranged.shape rfl arranged.bare arranged.parent fun s i => ?_
  exact arranged.children_eq (by rw [children_reread]; exact ordered s i)

theorem eq_reread (writable : Writable t.source)
    (ordered : ∀ s i, (t.children s i).Pairwise (· < ·)) : u = reread format t := by
  rw [rewritten.eq_of_ordered ordered, rewritten.source,
    Text.dropReturn_eq_self_iff.mpr writable.getLast?_printSource, writable.readSource_printSource]
  rfl

end Rewritten

namespace Printable

variable {options : Options} {t : Tree} (printable : Printable options t)
include printable

/-- The lines behind the header bring back the nodes and the links, whatever the header said. -/
theorem readFrom_body (source : Source) (done : List Tree) (m n : Nat) :
    ∃ u, (reread options.nodes t).Arranged u ∧ u.source = source ∧
      readFrom options n ⟨done, some ⟨m, .empty options.shape source⟩⟩
          ((t.nodes.toList.map fun x => dropReturn (nodeLine options.nodes x)) ++
            (t.nodes.toList.flatMap (edgeLines t) ++ [[]])) =
        .ok ⟨done, some ⟨m, u⟩⟩ := by
  let v : Tree := { reread options.nodes t with source }
  have distinct : (t.nodes.toList.map (·.id)).Nodup :=
    (Tree.wellLinked_of_firstFlaw? printable.flawless).ids
  have bare : (t.nodes.toList.map fun x => (options.nodes.reread x).bare).foldl Tree.push
      (.empty options.shape source) = v.mapNodes Node.bare := by
    rw [Tree.foldl_push]
    simp [v, Tree.empty, reread, Tree.mapNodes, printable.shape, ← List.map_toArray,
      Function.comp_def]
  have nodes : readFrom options n ⟨done, some ⟨m, .empty options.shape source⟩⟩
      (t.nodes.toList.map fun x => dropReturn (nodeLine options.nodes x)) =
        .ok ⟨done, some ⟨m, v.mapNodes Node.bare⟩⟩ := by
    rw [← bare]
    exact readFrom_nodes (fun x member => printable.readable x (by simpa using member))
      (fun x member => printable.words x (by simpa using member))
      (by simpa [Tree.empty] using distinct) done m n
  have flawless : (reread options.nodes t).firstFlaw? = none := by
    rw [firstFlaw?_reread, printable.flawless]
  have linking : v.WellLinked :=
    let same := Tree.wellLinked_of_firstFlaw? flawless
    ⟨same.ids, same.owned, same.children⟩
  have links (s : Side) : v.Interlinked s :=
    let same := (Tree.firstFlaw?_eq_none_iff_wellFormed.mp flawless).links s
    ⟨same.inverse, same.once, same.top, same.present, same.owner, same.scope⟩
  have words (i : Nat) (inside : i < v.size) : (v.node i).id < Text.wordLimit := by
    have same : (v.node i).id = (t.node i).id := id_node_reread options.nodes t i
    rw [same]
    exact printable.words _ (Tree.mem_nodes.mpr
      ⟨i, inside.trans_eq (size_reread options.nodes t), rfl⟩)
  obtain ⟨u, edges, joined⟩ := (Joined.start v).readFrom_allEdgeLines linking words
    (Nat.le_refl _) done m (n + t.nodes.toList.length)
  have arranged := joined.arranged links
  refine ⟨u, ⟨arranged.shape, arranged.size, arranged.bare, arranged.parent, arranged.children,
    arranged.ordered⟩, joined.source, ?_⟩
  have same : t.nodes.toList.flatMap (edgeLines t) =
      (List.range v.size).flatMap fun i => edgeLines v (v.node i) :=
    flatMap_edgeLines options.nodes t
  rw [readFrom_append nodes, List.length_map, same, readFrom_append edges,
    readFrom_cons (readLine_blank _ _), readFrom_nil]

/-- A section is read as its tree, which stays open. -/
theorem readFrom_sectionLines {p : Progress} {done : List Tree}
    (closes : close p.current = .ok done) (n : Nat) :
    ∃ u, Rewritten options.nodes t u ∧
      readFrom options n p ((sectionLines options.nodes t).map dropReturn) =
        .ok ⟨done ++ p.complete, some ⟨n, u⟩⟩ := by
  obtain ⟨u, arranged, source, read⟩ := printable.readFrom_body
    (readSource (dropReturn (printSource t.source))) (done ++ p.complete) n (n + 1)
  have split : (sectionLines options.nodes t).map dropReturn =
      dropReturn (headerLine t) ::
        ((t.nodes.toList.map fun x => dropReturn (nodeLine options.nodes x)) ++
          (t.nodes.toList.flatMap (edgeLines t) ++ [[]])) := by
    simp [sectionLines, List.map_flatMap, map_dropReturn_edgeLines, dropReturn]
  refine ⟨u, ⟨arranged, source⟩, ?_⟩
  rw [split, readFrom_cons (readLine_header t closes n)]
  exact read

theorem newline_not_mem {l : List Char} (line : l ∈ sectionLines options.nodes t) : '\n' ∉ l := by
  simp only [sectionLines, List.cons_append, List.mem_cons, List.mem_append, List.mem_map,
    List.mem_flatMap, List.not_mem_nil, or_false] at line
  have absent (n : Nat) : '\n' ∉ Text.decimal n := Text.not_mem_decimal (by decide)
  rcases line with rfl | ((⟨x, member, rfl⟩ | ⟨x, member, listed⟩) | rfl)
  · simp [headerLine, headerMark, printable.source]
  · have printed := NodeFormat.newline_not_mem_print (printable.readable x (by simpa using member))
    simp [nodeLine, nodeMark, absent, printed]
  · obtain ⟨child, parent, role, rfl⟩ := exists_edgeLine_of_mem listed
    exact newline_not_mem_edgeLine child parent role
  · simp

end Printable

/-- Sections are read one after the other. -/
theorem readFrom_sections {options : Options} {ts : List Tree}
    (printable : ∀ t ∈ ts, Printable options t) {p : Progress} {done : List Tree}
    (closes : close p.current = .ok done) (n : Nat) :
    ∃ q last us, readFrom options n p ((ts.flatMap (sectionLines options.nodes)).map dropReturn) =
        .ok q ∧ close q.current = .ok last ∧
      (last ++ q.complete).reverse = (done ++ p.complete).reverse ++ us ∧
      List.Forall₂ (Rewritten options.nodes) (ts.filter fun t => !t.nodes.isEmpty) us := by
  induction ts generalizing p done n with
  | nil => exact ⟨p, done, [], rfl, closes, by simp, .nil⟩
  | cons t ts ih =>
      obtain ⟨first, rest⟩ := List.forall_mem_cons.mp printable
      obtain ⟨u, rewritten, opened⟩ := first.readFrom_sectionLines closes n
      have closed := rewritten.close_eq first.flawless n
      obtain ⟨q, last, us, read, closes', trees, each⟩ := ih rest
        (p := ⟨done ++ p.complete, some ⟨n, u⟩⟩) closed
        (n + ((sectionLines options.nodes t).map dropReturn).length)
      have whole : readFrom options n p
          (((t :: ts).flatMap (sectionLines options.nodes)).map dropReturn) = .ok q := by
        rw [List.flatMap_cons, List.map_append, readFrom_append opened]
        exact read
      cases empty : t.nodes.isEmpty with
      | true =>
          refine ⟨q, last, us, whole, closes', by simpa [empty] using trees, ?_⟩
          rwa [List.filter_cons_of_neg (by simp [empty])]
      | false =>
          refine ⟨q, last, u :: us, whole, closes', by simpa [empty] using trees, ?_⟩
          rw [List.filter_cons_of_pos (by simp [empty])]
          exact .cons rewritten each

/-- Reading never fails on what was written, and gives a tree for every section with nodes. -/
theorem exists_read_write {options : Options} {ts : List Tree}
    (printable : ∀ t ∈ ts, Printable options t) :
    ∃ us, read options (write options ts) = .ok us ∧
      List.Forall₂ (Rewritten options.nodes) (ts.filter fun t => !t.nodes.isEmpty) us := by
  have whole : ∀ l ∈ ts.flatMap (sectionLines options.nodes), '\n' ∉ l := by
    intro l listed
    obtain ⟨t, member, line⟩ := List.mem_flatMap.mp listed
    exact (printable t member).newline_not_mem line
  obtain ⟨q, last, us, read, closed, trees, each⟩ :=
    readFrom_sections printable (p := ⟨[], none⟩) (rfl : close none = .ok []) 1
  refine ⟨us, ?_, each⟩
  rw [LineGraph.read, write, String.toList_ofList, print, Text.lines_unlines whole, readLines]
  rw [readFrom] at read
  simp only [read, closed, Except.map]
  rw [trees]
  simp

namespace Legible

variable {options : Options} {t : Tree} (legible : Legible options t)
include legible

theorem printable : Printable options t where
  shape := legible.shape
  flawless := legible.flawless
  source := legible.source.newline_not_mem_printSource
  words := legible.words
  readable := legible.readable

theorem pairwise_children (s : Side) (i : Nat) : (t.children s i).Pairwise (· < ·) := by
  rcases Nat.lt_or_ge i t.size with inside | outside
  · exact legible.ordered _ (Tree.mem_nodes.mpr ⟨i, inside, rfl⟩) s
  · rw [Tree.children_of_size_le outside]
    exact .nil

end Legible

theorem read_write_reread {options : Options} {ts : List Tree}
    (legible : ∀ t ∈ ts, Legible options t) :
    read options (write options ts) = .ok (ts.map (reread options.nodes)) := by
  obtain ⟨us, read, each⟩ := exists_read_write fun t member => (legible t member).printable
  have nonempty : (ts.filter fun t => !t.nodes.isEmpty) = ts :=
    List.filter_eq_self.mpr fun t member => by simpa using (legible t member).nonempty
  rw [nonempty] at each
  have same : us = ts.map (reread options.nodes) := by
    clear read nonempty
    induction each with
    | nil => rfl
    | @cons t u ts us rewritten _ ih =>
        obtain ⟨first, rest⟩ := List.forall_mem_cons.mp legible
        rw [List.map_cons, rewritten.eq_reread first.source first.pairwise_children, ih rest]
  rw [read, same]

/-- What a node format keeps of a node. -/
def NodeFormat.keep : NodeFormat → Node → Node
  | labeled, n => { n with lines := ⟨0, 0⟩ }
  | typeOnly, n => n.frame

/-- A node whose text comes back as it is: it stays on its line, no carriage return ends it, and
the guard of a branch is what its text is read as. -/
structure Plain (n : Node) : Prop where
  line : '\n' ∉ n.label.toList
  ending : n.label.toList.getLast? ≠ some '\r'
  guarded : n.kind.hasGuard → n.label ≠ "" →
    ∃ guard, Guard.parse n.label.toList = .ok guard ∧ n.guard = some guard.formula
  unguarded : n.kind.hasGuard = false ∨ n.label = "" → n.guard = none

/-- A tree that comes back as it is, up to what the node format does not keep. -/
structure Portable (options : Options) (t : Tree) : Prop extends Framed options t where
  plain : options.nodes = .labeled → ∀ n ∈ t.nodes, Plain n

theorem plain_of_hasGuard_eq_false {n : Node} (other : n.kind.hasGuard = false)
    (unguarded : n.guard = none) (line : '\n' ∉ n.label.toList)
    (ending : n.label.toList.getLast? ≠ some '\r') : Plain n where
  line := line
  ending := ending
  guarded := by simp [other]
  unguarded := fun _ => unguarded

namespace Plain

variable {n : Node} (plain : Plain n)
include plain

theorem dropReturn_label : dropReturn n.label.toList = n.label.toList :=
  Text.dropReturn_eq_self_iff.mpr plain.ending

theorem readGuard_label : NodeFormat.readGuard n.kind n.label.toList = .ok n.guard := by
  rw [NodeFormat.readGuard]
  split
  · next guarded =>
    simp only [Bool.and_eq_true, Bool.not_eq_true', List.isEmpty_eq_false_iff, ne_eq,
      String.toList_eq_nil_iff] at guarded
    obtain ⟨guard, parsed, same⟩ := plain.guarded guarded.1 guarded.2
    rw [parsed, same]
  · next unguarded =>
    rw [plain.unguarded]
    by_cases guarded : n.kind.hasGuard
    · simp_all
    · simp_all

theorem readable : NodeFormat.labeled.Readable n := by
  intro _
  rw [plain.dropReturn_label]
  exact ⟨plain.line, n.guard, plain.readGuard_label⟩

theorem reread_eq_keep : NodeFormat.labeled.reread n = NodeFormat.labeled.keep n := by
  rw [NodeFormat.reread, plain.dropReturn_label, plain.readGuard_label]
  simp [NodeFormat.keep, Except.toOption]

end Plain

theorem reread_eq_of_plain {t : Tree} (plain : ∀ n ∈ t.nodes, Plain n) :
    reread .labeled t = t.mapNodes NodeFormat.labeled.keep := by
  have same : t.nodes.map NodeFormat.labeled.reread = t.nodes.map NodeFormat.labeled.keep :=
    Array.map_congr_left fun n member => (plain n member).reread_eq_keep
  rw [reread, Tree.mapNodes, same, Tree.mapNodes]

namespace Portable

variable {options : Options} {t : Tree} (portable : Portable options t)
include portable

theorem legible : Legible options t where
  toFramed := portable.toFramed
  readable := by
    intro n member labeled
    exact (portable.plain labeled n member).readable rfl

theorem reread_eq : reread options.nodes t = t.mapNodes options.nodes.keep := by
  obtain ⟨shape, format⟩ := options
  cases format with
  | typeOnly => rfl
  | labeled => exact reread_eq_of_plain (portable.plain rfl)

end Portable

/-- Trees that are written come back as they were, in their order, but for the lines of their nodes
and, where only types are written, labels and guards. -/
theorem read_write {options : Options} {ts : List Tree}
    (portable : ∀ t ∈ ts, Portable options t) :
    read options (write options ts) = .ok (ts.map (·.mapNodes options.nodes.keep)) := by
  rw [read_write_reread fun t member => (portable t member).legible]
  exact congrArg Except.ok (List.map_congr_left fun t member => (portable t member).reread_eq)

theorem read_write_moved :
    ∃ t : Tree, t.parent .before 3 ≠ t.parent .after 3 ∧
      (∀ u ∈ [t, t], Portable .standard u) ∧
      read .standard (write .standard [t, t]) =
        .ok ([t, t].map (·.mapNodes NodeFormat.labeled.keep)) := by
  let t : Tree :=
    { nodes := #[
        { Node.fresh 7 .root .kept "" with before := ⟨none, [1, 3]⟩, after := ⟨none, [1]⟩ },
        { Node.fresh 3 .ifBranch .kept "A" with
          guard := some (.var "A")
          lines := ⟨1, 1⟩
          before := ⟨some 0, [2]⟩
          after := ⟨some 0, [3]⟩ },
        { Node.fresh 5 .code .removed "a_b\r c" with before := ⟨some 1, []⟩ },
        { Node.fresh 4 .code .kept "" with before := ⟨some 0, []⟩, after := ⟨some 1, []⟩ }]
      shape := .tree
      source := ⟨"f", "c", some ⟨1, 4, 1, 3⟩⟩ }
  have guard : Guard.parse "A".toList = .ok ⟨"A", .var "A"⟩ := by decide +kernel
  have portable : Portable .standard t := by
    refine ⟨⟨by decide, rfl, by decide +kernel, ?_, ?_, ?_⟩, fun _ => ?_⟩
    · intro n member s
      simp only [t, List.mem_toArray, List.mem_cons, List.not_mem_nil, or_false] at member
      rcases member with rfl | rfl | rfl | rfl <;> cases s <;> decide
    · refine ⟨by decide, by decide, by decide, by decide, by decide, ?_⟩
      rintro range ⟨⟩
      constructor <;> decide
    · decide
    · intro n member
      simp only [t, List.mem_toArray, List.mem_cons, List.not_mem_nil, or_false] at member
      rcases member with rfl | rfl | rfl | rfl
      case inr.inl => exact ⟨by decide, by decide, fun _ _ => ⟨_, guard, rfl⟩, by decide⟩
      all_goals exact plain_of_hasGuard_eq_false rfl rfl (by decide) (by decide)
  have both : ∀ u ∈ [t, t], Portable .standard u := by simp [portable]
  exact ⟨t, by decide, both, read_write both⟩

end LineGraph

end Variability
