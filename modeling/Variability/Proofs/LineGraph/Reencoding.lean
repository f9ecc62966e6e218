import Variability.Proofs.LineGraph.Faithful
import Variability.Proofs.LineGraph.RoundTrip

/-!
A line graph that was read and is written again. The new text is always read, and gives the trees
of the old one but for the order of children: there the edges stood in any order, here they stand
in the order of the nodes. So the trees are the same when children came in that order, and a
presence condition stays the same as long as the branches it negates did.
-/

namespace Variability.LineGraph

variable {options : Options} {t u : Tree} {passage : Passage}

/-- What stands behind the mark of a line. -/
def Line.body : Line → List Char
  | header text | node text | edge text => text
  | blank | other => []

theorem body_subset (l : List Char) : (Line.ofText l).body ⊆ l := by
  unfold Line.ofText
  split
  · next label starts =>
    have part := Text.after?_subset starts
    cases space : Text.after? [' '] label with
    | none => exact part
    | some more => exact List.Subset.trans (Text.after?_subset space) part
  · split
    · next starts => exact Text.after?_subset starts
    · split
      · next starts => exact Text.after?_subset starts
      · split <;> exact List.nil_subset l

theorem mem_passages {ls : List (List Char)} :
    (∀ l ∈ (passages ls).1, l ∈ ls) ∧ ∀ passage ∈ (passages ls).2,
      (∃ l ∈ ls, Line.ofText l = .header passage.label) ∧ ∀ l ∈ passage.lines, l ∈ ls := by
  induction ls with
  | nil => simp [passages]
  | cons l ls ih =>
      obtain ⟨front, rest⟩ := ih
      have later : ∀ passage ∈ (passages ls).2,
          (∃ k ∈ l :: ls, Line.ofText k = .header passage.label) ∧
            ∀ k ∈ passage.lines, k ∈ l :: ls := by
        intro passage member
        obtain ⟨⟨k, listed, header⟩, lines⟩ := rest passage member
        exact ⟨⟨k, List.mem_cons_of_mem l listed, header⟩,
          fun k line => List.mem_cons_of_mem l (lines k line)⟩
      by_cases header : ∃ label, Line.ofText l = .header label
      · obtain ⟨label, line⟩ := header
        rw [passages_header line]
        refine ⟨by simp, List.forall_mem_cons.mpr ⟨⟨⟨l, by simp, line⟩, ?_⟩, later⟩⟩
        exact fun k listed => List.mem_cons_of_mem l (front k listed)
      · rw [passages_line fun label line => header ⟨label, line⟩]
        refine ⟨List.forall_mem_cons.mpr ⟨by simp, ?_⟩, later⟩
        exact fun k listed => List.mem_cons_of_mem l (front k listed)

/-- A character that is not in the labels of a passage: neither in that of its header nor in those
of its nodes. -/
def Passage.Lacks (passage : Passage) (c : Char) : Prop :=
  c ∉ passage.label ∧ ∀ text ∈ passage.nodeTexts, c ∉ text

theorem lacks_of_mem_passages {ls : List (List Char)} {c : Char} (absent : ∀ l ∈ ls, c ∉ l)
    (member : passage ∈ (passages ls).2) : passage.Lacks c := by
  obtain ⟨⟨l, listed, header⟩, lines⟩ := mem_passages.2 passage member
  constructor
  · have part := body_subset l
    rw [header] at part
    exact fun inside => absent l listed (part inside)
  · intro text node inside
    obtain ⟨k, line, kind⟩ := List.mem_filterMap.mp node
    have part := body_subset k
    cases shape : Line.ofText k with
    | node rest =>
        rw [shape] at kind part
        obtain rfl := Option.some.inj kind
        exact absent k (lines k line) (part inside)
    | header label | edge rest | blank | other =>
        rw [shape] at kind
        cases kind

theorem NodeFormat.reread_of_ofText? {format : NodeFormat} {text : List Char} {n : Node}
    (read : format.ofText? text = some n) (line : '\n' ∉ text) (returnless : '\r' ∉ text) :
    n.id < Text.wordLimit ∧ format.Readable n ∧ format.reread n = n := by
  unfold NodeFormat.ofText? at read
  have part : ((Text.cut? [' '] text).getD (text, [])).2 ⊆ text := by
    cases cut : Text.cut? [' '] text with
    | none => exact List.nil_subset text
    | some parts =>
        obtain ⟨left, right⟩ := parts
        exact (Text.cut?_subset cut).2
  generalize (Text.cut? [' '] text).getD (text, []) = parts at part read
  obtain ⟨idText, label⟩ := parts
  obtain ⟨id, number, read⟩ := Option.bind_eq_some_iff.mp read
  cases decoded : format.read id label with
  | error e =>
      rw [decoded] at read
      cases read
  | ok x =>
      rw [decoded] at read
      obtain rfl := Option.some.inj read
      obtain ⟨-, rfl⟩ := NodeFormat.bare_of_read decoded
      exact ⟨Text.lt_wordLimit_of_readWord? number, NodeFormat.reread_of_read decoded
        (fun newline => line (part newline)) fun ret => returnless (part ret)⟩

theorem NodeFormat.reread_bare (format : NodeFormat) (n : Node) :
    (format.reread n).bare = format.reread n.bare := by
  cases format <;> rfl

namespace Faithful

variable (faithful : Faithful options passage t)
include faithful

theorem exists_text {n : Node} (member : n ∈ t.nodes) :
    ∃ text ∈ passage.nodeTexts, options.nodes.ofText? text = some n.bare := by
  have listed : some n.bare ∈ passage.nodeTexts.map options.nodes.ofText? := by
    rw [faithful.nodes]
    exact List.mem_map.mpr ⟨n, by simpa using member, rfl⟩
  exact List.mem_map.mp listed

section Lines

variable (newline : passage.Lacks '\n') (returnless : passage.Lacks '\r')
include newline returnless

theorem reread_bare_of_mem {n : Node} (member : n ∈ t.nodes) :
    n.id < Text.wordLimit ∧ options.nodes.Readable n ∧ (options.nodes.reread n).bare = n.bare := by
  obtain ⟨text, listed, read⟩ := faithful.exists_text member
  obtain ⟨word, readable, same⟩ :=
    NodeFormat.reread_of_ofText? read (newline.2 text listed) (returnless.2 text listed)
  exact ⟨word, readable, by rw [NodeFormat.reread_bare, same]⟩

theorem printable : Printable options t where
  shape := faithful.shape
  flawless := faithful.flawless
  source := by
    rw [faithful.source]
    exact not_mem_printSource_readSource newline.1 (by decide) (by decide) (by decide)
  words := fun _ member => (faithful.reread_bare_of_mem newline returnless member).1
  readable := fun _ member => (faithful.reread_bare_of_mem newline returnless member).2.1

/-- What was read is read once more as it is, but for the order of children. -/
theorem arranged_of_rewritten (rewritten : Rewritten options.nodes t u) : t.Arranged u where
  shape := rewritten.shape
  size := rewritten.size.trans (size_reread options.nodes t)
  bare := by
    intro i
    rw [rewritten.bare]
    rcases Nat.lt_or_ge i t.size with inside | outside
    · rw [reread, Tree.node_mapNodes_of_lt inside]
      exact (faithful.reread_bare_of_mem newline returnless
        (Tree.mem_nodes.mpr ⟨i, inside, rfl⟩)).2.2
    · rw [Tree.node_of_size_le outside, Tree.node_of_size_le (by rwa [size_reread])]
  parent := by
    intro s i
    rw [rewritten.parent, ← Tree.parent_frame, frame_reread, Tree.parent_frame]
  children := by
    intro s i
    rw [← children_reread options.nodes t s i]
    exact rewritten.children s i
  ordered := rewritten.ordered

omit newline in
theorem source_of_rewritten (rewritten : Rewritten options.nodes t u)
    (separated : sourceMark <:+: passage.label) : u.source = t.source := by
  have ending : (printSource t.source).getLast? ≠ some '\r' := by
    rw [faithful.source]
    exact fun last => not_mem_printSource_readSource returnless.1 (by decide) (by decide)
      (by decide) (List.mem_of_getLast? last)
  rw [rewritten.source, Text.dropReturn_eq_self_iff.mpr ending, faithful.source,
    readSource_printSource_readSource separated]

end Lines

end Faithful

/-- A tree that was read, written and read again. -/
structure Reencoded (t u : Tree) : Prop extends t.Arranged u where
  source : u.source = t.source
  condition : ∀ s i, t.Aligned s i → u.presenceCondition s i = t.presenceCondition s i

theorem eq_iff_of_reencoded {ts us : List Tree} (each : List.Forall₂ Reencoded ts us) :
    us = ts ↔ ∀ t ∈ ts, ∀ s i, (t.children s i).Pairwise (· < ·) := by
  induction each with
  | nil => simp
  | cons first _ ih => rw [List.cons_eq_cons, first.eq_iff first.source, ih, List.forall_mem_cons]

theorem Received.exists_passage {ps : List Passage} {ts : List Tree}
    (received : Received options ps ts) (member : t ∈ ts) :
    ∃ passage ∈ ps, passage.hasNodes ∧ Faithful options passage t := by
  obtain ⟨i, inside, rfl⟩ := List.getElem_of_mem member
  have insideToo : i < (ps.filter Passage.hasNodes).length := by
    rwa [received.trees.length_eq]
  have listed := List.mem_filter.mp (List.getElem_mem insideToo)
  exact ⟨_, listed.1, listed.2, received.trees.get insideToo inside⟩

theorem Faithful.nonempty (faithful : Faithful options passage t) (nodes : passage.hasNodes) :
    t.nodes.isEmpty = false := by
  have count := faithful.length_nodeTexts
  simp only [Passage.hasNodes, Bool.not_eq_true', List.isEmpty_eq_false_iff] at nodes
  rw [Array.isEmpty_eq_false_iff]
  intro none
  rw [Tree.size, none, Array.size_empty, List.length_eq_zero_iff] at count
  exact nodes count

/-- The trees of a text without carriage returns, in which every tree has the name of a commit, are
written so that they are read again, with children in the order of the array and otherwise as they
were. They are the same exactly when children came in that order; and the condition of a node is
the same when the siblings of every further branch above it did. -/
theorem read_write_read {text : String} {ts : List Tree} (accepted : read options text = .ok ts)
    (returnless : '\r' ∉ text.toList)
    (separated : ∀ passage ∈ (passages (Text.lines text.toList)).2, passage.hasNodes →
      sourceMark <:+: passage.label) :
    ∃ us, read options (write options ts) = .ok us ∧ List.Forall₂ Reencoded ts us ∧
      (us = ts ↔ ∀ t ∈ ts, ∀ s i, (t.children s i).Pairwise (· < ·)) := by
  obtain ⟨-, received⟩ := received_of_read accepted
  have newline {passage : Passage} : passage ∈ (passages (Text.lines text.toList)).2 →
      passage.Lacks '\n' :=
    lacks_of_mem_passages fun _ => Text.newline_not_mem_of_mem_lines
  have ret {passage : Passage} : passage ∈ (passages (Text.lines text.toList)).2 →
      passage.Lacks '\r' :=
    lacks_of_mem_passages fun _ line inside => returnless (Text.lines_subset line inside)
  have printable : ∀ t ∈ ts, Printable options t := by
    intro t member
    obtain ⟨passage, listed, -, faithful⟩ := received.exists_passage member
    exact faithful.printable (newline listed) (ret listed)
  obtain ⟨us, read, each⟩ := exists_read_write printable
  have nonempty : (ts.filter fun t => !t.nodes.isEmpty) = ts := by
    refine List.filter_eq_self.mpr fun t member => ?_
    obtain ⟨passage, -, nodes, faithful⟩ := received.exists_passage member
    rw [faithful.nonempty nodes, Bool.not_false]
  rw [nonempty] at each
  have reencoded : List.Forall₂ Reencoded ts us := by
    refine ((List.forall₂_and_left ts us).mpr ⟨fun t member => member, each⟩).imp ?_
    rintro t u ⟨member, rewritten⟩
    obtain ⟨passage, listed, nodes, faithful⟩ := received.exists_passage member
    have arranged := faithful.arranged_of_rewritten (newline listed) (ret listed) rewritten
    exact ⟨arranged, faithful.source_of_rewritten (ret listed) rewritten
      (separated passage listed nodes), fun _ _ => arranged.presenceCondition⟩
  exact ⟨us, read, reencoded, eq_iff_of_reencoded reencoded⟩

/-- What was read, if it is one tree. -/
def only? : Except DecodeError (List Tree) → Option Tree
  | .ok [t] => some t
  | .ok _ | .error _ => none

theorem eq_of_only? {trees : Except DecodeError (List Tree)} {t : Tree}
    (one : only? trees = some t) : trees = .ok [t] := by
  unfold only? at one
  split at one <;> cases one
  rfl

/-- The code of an `else` branch changes places and keeps its condition. -/
theorem read_write_read_siblings :
    ∃ t u, read .standard ("t #f$$$c\nv 7 NON_ROOT\nv 1 NON_IF_A\nv 2 NON_ELSE\nv 3 NON_CODE_x\n" ++
        "v 04 NON_CODE_y\ne 1 7 both\ne 2 7 both\ne 4 2 both\ne 3 2 both") = .ok [t] ∧
      read .standard (write .standard [t]) = .ok [u] ∧ t.Arranged u ∧ u ≠ t ∧
      u.presenceCondition .before 3 = t.presenceCondition .before 3 := by
  obtain ⟨text, written⟩ : ∃ text, text =
      "t #f$$$c\nv 7 NON_ROOT\nv 1 NON_IF_A\nv 2 NON_ELSE\nv 3 NON_CODE_x\n" ++
        "v 04 NON_CODE_y\ne 1 7 both\ne 2 7 both\ne 4 2 both\ne 3 2 both" := ⟨_, rfl⟩
  rw [← written]
  have plain : '\r' ∉ text.toList ∧
      (passages (Text.lines text.toList)).2.map (·.label) = ["f$$$c".toList] := by
    rw [written]
    decide +kernel
  have reads : (only? (read .standard text)).any (fun t =>
      decide (t.children .before 0 = [1, 2] ∧ t.children .before 2 = [4, 3] ∧
        t.lineage? .before 3 = some [3, 2, 0] ∧ t.parent .before 2 = some 0 ∧
        (t.node 3).kind = .code ∧ (t.node 0).kind = .root)) = true := by
    rw [written]
    decide +kernel
  obtain ⟨returnless, labels⟩ := plain
  obtain ⟨t, one, facts⟩ := (Option.any_eq_true _ _).mp reads
  have accepted := eq_of_only? one
  obtain ⟨top, swapped, lineage, above, code, root⟩ := of_decide_eq_true facts
  have separated : ∀ passage ∈ (passages (Text.lines text.toList)).2, passage.hasNodes →
      sourceMark <:+: passage.label := by
    intro passage member _
    have listed := List.mem_map_of_mem (f := (·.label)) member
    rw [labels, List.mem_singleton] at listed
    exact ⟨['f'], ['c'], listed.symm⟩
  obtain ⟨us, read, each, same⟩ := read_write_read accepted returnless separated
  obtain ⟨u, rest, reencoded, none, rfl⟩ := List.forall₂_cons_left_iff.mp each
  obtain rfl := List.forall₂_nil_left_iff.mp none
  have aligned : t.Aligned .before 3 := by
    intro chain found k member further p linked
    rw [lineage] at found
    obtain rfl := Option.some.inj found
    simp only [List.mem_cons, List.not_mem_nil, or_false] at member
    rcases member with rfl | rfl | rfl
    · simp [code] at further
    · rw [above] at linked
      obtain rfl := Option.some.inj linked
      rw [top]
      decide
    · simp [root] at further
  refine ⟨t, u, accepted, read, reencoded.toArranged, ?_, reencoded.condition .before 3 aligned⟩
  rintro rfl
  have ordered := same.mp rfl u (by simp) .before 2
  rw [swapped] at ordered
  exact absurd ordered (by decide)

/-- An `else` branch whose edge stands before that of its `if` branch negates nothing; written and
read again it does. -/
theorem not_read_write_read :
    ∃ t u, read .standard ("t # f$$$c\nv 0 NON_ROOT\nv 1 NON_IF_A\nv 2 NON_ELSE\n" ++
        "v 3 NON_CODE_x\ne 2 0 both\ne 1 0 both\ne 3 2 both\n") = .ok [t] ∧
      read .standard (write .standard [t]) = .ok [u] ∧
      t.children .before 0 = [2, 1] ∧ u.children .before 0 = [1, 2] ∧
      (t.presenceCondition .before 3).toOption = some .tt ∧
      (u.presenceCondition .before 3).toOption = some (.not (.var "A")) := by
  obtain ⟨text, written⟩ : ∃ text, text = "t # f$$$c\nv 0 NON_ROOT\nv 1 NON_IF_A\nv 2 NON_ELSE\n" ++
      "v 3 NON_CODE_x\ne 2 0 both\ne 1 0 both\ne 3 2 both\n" := ⟨_, rfl⟩
  rw [← written]
  have reads : (only? (read .standard text)).any (fun t =>
      (only? (read .standard (write .standard [t]))).any fun u =>
        decide (t.children .before 0 = [2, 1] ∧ u.children .before 0 = [1, 2] ∧
          (t.presenceCondition .before 3).toOption = some .tt ∧
          (u.presenceCondition .before 3).toOption = some (.not (.var "A")))) = true := by
    rw [written]
    decide +kernel
  obtain ⟨t, one, reads⟩ := (Option.any_eq_true _ _).mp reads
  obtain ⟨u, again, facts⟩ := (Option.any_eq_true _ _).mp reads
  exact ⟨t, u, eq_of_only? one, eq_of_only? again, of_decide_eq_true facts⟩

end Variability.LineGraph
