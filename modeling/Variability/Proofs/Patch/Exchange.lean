import Variability.Proofs.LineGraph.RoundTrip
import Variability.Proofs.Patch.Acceptance
import Variability.Proofs.Patch.Labels

/-!
The tree of a patch, written as a line graph and read again. Sources, ids, kinds, edits and links
come back in every case. A label loses a carriage return at its end, because the end of its line
takes it along; every other label comes back, and with it the guard that is read off it.
-/

namespace Variability

open Text (dropReturn)

namespace LineGraph

/-- A node as patches make them: its label is one line, and the guard of a branch is read off it. -/
structure Lettered (n : Node) : Prop where
  line : '\n' ∉ n.label.toList
  guarded : n.kind.hasGuard →
    ∃ guard : Guard, guard.Normal ∧ n.label = guard.label ∧ n.guard = some guard.formula
  unguarded : n.kind.hasGuard = false → n.guard = none

namespace Lettered

variable {n : Node} (lettered : Lettered n)
include lettered

theorem exists_parse_label (guarded : n.kind.hasGuard) :
    ∃ guard, Guard.parse (dropReturn n.label.toList) = .ok guard := by
  obtain ⟨guard, normal, label, -⟩ := lettered.guarded guarded
  rw [label]
  exact Guard.exists_parse_dropReturn normal.commentless normal.parse

theorem readable : NodeFormat.labeled.Readable n := by
  refine fun _ => ⟨lettered.line, ?_⟩
  unfold NodeFormat.readGuard
  split
  · next guarded =>
    obtain ⟨guard, parsed⟩ := lettered.exists_parse_label (Bool.and_eq_true_iff.mp guarded).1
    exact ⟨some guard.formula, by rw [parsed]⟩
  · exact ⟨none, rfl⟩

theorem plain (ending : n.label.toList.getLast? ≠ some '\r') : Plain n where
  line := lettered.line
  ending := ending
  guarded := by
    intro guarded _
    obtain ⟨guard, normal, label, same⟩ := lettered.guarded guarded
    exact ⟨guard, by rw [label]; exact normal.parse, same⟩
  unguarded := by
    rintro (other | empty)
    · exact lettered.unguarded other
    · cases guarded : n.kind.hasGuard with
      | false => exact lettered.unguarded guarded
      | true =>
          obtain ⟨guard, normal, label, -⟩ := lettered.guarded guarded
          exact absurd (label.symm.trans empty) normal.written

end Lettered

theorem node_reread (format : NodeFormat) (t : Tree) (i : Nat) :
    (reread format t).node i = format.reread (t.node i) := by
  rcases Nat.lt_or_ge i t.size with inside | outside
  · exact Tree.node_mapNodes_of_lt inside _
  · rw [Tree.node_of_size_le outside, Tree.node_of_size_le (by rwa [size_reread])]
    cases format <;> rfl

/-- What is the same, and what is lost, in a tree that was written and read again. -/
structure Returned (t u : Tree) : Prop where
  source : u.source = t.source
  shape : u.shape = t.shape
  size : u.size = t.size
  frame : ∀ i, (u.node i).frame = (t.node i).frame
  label : ∀ i, (u.node i).label = String.ofList (dropReturn (t.node i).label.toList)
  guard : ∀ i, (t.node i).kind.hasGuard → ∃ guard,
    Guard.parse (dropReturn (t.node i).label.toList) = .ok guard ∧
      (u.node i).guard = some guard.formula
  unguarded : ∀ i, (t.node i).kind.hasGuard = false → (u.node i).guard = (t.node i).guard
  whole : ∀ i, (t.node i).label.toList.getLast? ≠ some '\r' →
    u.node i = NodeFormat.labeled.keep (t.node i)

section Recall

variable {t : Tree} (lettered : ∀ n ∈ t.nodes, Lettered n)
include lettered

theorem lettered_node (i : Nat) : Lettered (t.node i) := by
  rcases Nat.lt_or_ge i t.size with inside | outside
  · exact lettered _ (Tree.mem_nodes.mpr ⟨i, inside, rfl⟩)
  · rw [Tree.node_of_size_le outside]
    exact ⟨by decide, nofun, fun _ => rfl⟩

theorem returned_reread : Returned t (reread .labeled t) where
  source := rfl
  shape := rfl
  size := size_reread .labeled t
  frame := by
    intro i
    rw [node_reread, NodeFormat.frame_reread]
  label := by
    intro i
    rw [node_reread]
    rfl
  guard := by
    intro i guarded
    obtain ⟨guard, parsed⟩ := (lettered_node lettered i).exists_parse_label guarded
    have written := Guard.ne_nil_of_parse parsed
    refine ⟨guard, parsed, ?_⟩
    rw [node_reread]
    simp [NodeFormat.reread, NodeFormat.readGuard, guarded, written, parsed, Except.toOption]
  unguarded := by
    intro i other
    rw [node_reread, (lettered_node lettered i).unguarded other]
    simp [NodeFormat.reread, NodeFormat.readGuard, other, Except.toOption]
  whole := by
    intro i ending
    rw [node_reread]
    exact ((lettered_node lettered i).plain ending).reread_eq_keep

theorem reread_eq_iff : reread .labeled t = t.mapNodes NodeFormat.labeled.keep ↔
    ∀ n ∈ t.nodes, n.label.toList.getLast? ≠ some '\r' := by
  constructor
  · intro same n member
    obtain ⟨i, inside, rfl⟩ := Tree.mem_nodes.mp member
    have label := (returned_reread lettered).label i
    rw [same, Tree.node_mapNodes_of_lt inside] at label
    rw [← Text.dropReturn_eq_self_iff, ← String.ofList_inj, ← label, String.ofList_toList]
    rfl
  · intro ending
    exact reread_eq_of_plain fun n member => (lettered n member).plain (ending n member)

end Recall

end LineGraph

namespace Patch

namespace Nesting

theorem source_place {e : Entry} {s s' : Nesting} (placed : s.place e = .ok s') :
    s'.tree.source = s.tree.source := by
  obtain ⟨prepared, prepareEq, rfl⟩ := place_ok placed
  rw [tree_settle]
  have sameTree := (prepare_ok prepareEq).1
  cases e.edit <;> simp [attached, push, Tree.push, sameTree]

theorem source_foldlM {es : List Entry} {s s' : Nesting}
    (placed : es.foldlM Nesting.place s = .ok s') : s'.tree.source = s.tree.source := by
  induction es generalizing s with
  | nil =>
      cases placed
      rfl
  | cons e es ih =>
      rw [List.foldlM_cons] at placed
      cases first : s.place e with
      | error err => simp [first, bind, Except.bind] at placed
      | ok next =>
          rw [first] at placed
          rw [ih placed, source_place first]

end Nesting

theorem exists_source_of_parse {text path commit : String} {t : Tree}
    (parsed : parse text path commit = .ok (.ok t)) :
    ∃ hunk, t.source = ⟨path, commit, hunk⟩ ∧ ∀ range ∈ hunk, range.InWords := by
  obtain ⟨built, hunk, placed, ending, rfl, -⟩ :=
    (Reading.toTree_ok_iff (entriesOf_proper text)).mp parsed
  have source : built.tree.source = ⟨path, commit, none⟩ := Nesting.source_foldlM placed
  refine ⟨hunk, ?_, read_inWords (by simp) 1 none _ ending⟩
  rw [Nesting.closed, source]

theorem framed_of_parse {text path commit : String} {t : Tree}
    (parsed : parse text path commit = .ok (.ok t))
    (names : LineGraph.Writable ⟨path, commit, none⟩) (room : text.length < Text.wordLimit) :
    LineGraph.Framed .standard t := by
  have accepted := accepted_of_parse parsed
  have overlays := accepted.overlays
  have size := overlays.size
  obtain ⟨hunk, source, words⟩ := exists_source_of_parse parsed
  refine ⟨?_, overlays.shape, ?_, ?_, ?_, ?_⟩
  · intro empty
    simp [Tree.size, empty] at size
  · exact overlays.firstFlaw?_eq_none fun e member => (accepted.proper e member).line
  · intro n member s
    obtain ⟨i, -, rfl⟩ := Tree.mem_nodes.mp member
    change (t.children s i).Pairwise (· < ·)
    rw [overlays.children]
    exact List.pairwise_lt_range.filter _
  · rw [source]
    exact { names with hunk := words }
  · intro n member
    obtain ⟨i, inside, rfl⟩ := Tree.mem_nodes.mp member
    have entries : (entriesOf text).length ≤ (Text.lines text.toList).length :=
      length_entries_le none 1 none _
    have lines := Text.length_lines_le text.toList
    rw [String.length_toList] at lines
    rw [overlays.id_eq inside]
    omega

theorem lettered_of_parse {text path commit : String} {t : Tree}
    (parsed : parse text path commit = .ok (.ok t)) : ∀ n ∈ t.nodes, LineGraph.Lettered n := by
  have accepted := accepted_of_parse parsed
  have overlays := accepted.overlays
  have labeled : ∀ e ∈ entriesOf text, e.Labeled :=
    read_labeled none 1 (by simp) fun _ => Text.newline_not_mem_of_mem_lines
  intro n member
  obtain ⟨i, inside, rfl⟩ := Tree.mem_nodes.mp member
  by_cases line : i = 0
  · subst line
    have label : (t.node 0).label = "" := congrArg Node.label overlays.root
    have guard : (t.node 0).guard = none := congrArg Node.guard overlays.root
    refine ⟨by simp [label], ?_, fun _ => guard⟩
    simp [overlays.kind_root, NodeKind.hasGuard]
  · obtain ⟨k, e, rfl, lookup⟩ := overlays.lookup inside line
    have listed := List.mem_of_getElem? lookup
    have label : (t.node (k + 1)).label = e.label := congrArg Node.label (overlays.entry lookup)
    have guard : (t.node (k + 1)).guard = e.guard := congrArg Node.guard (overlays.entry lookup)
    have proper := (accepted.proper e listed).guarded
    have kind := overlays.kind_entry lookup
    refine ⟨by rw [label]; exact (labeled e listed).line, ?_, ?_⟩
    · intro guarded
      rw [kind, ← proper, Option.isSome_iff_exists] at guarded
      obtain ⟨f, found⟩ := guarded
      obtain ⟨written, normal, same, rfl⟩ := (labeled e listed).guard f found
      exact ⟨written, normal, by rw [label, same], by rw [guard, found]⟩
    · intro unguarded
      rw [kind, ← proper, Option.isSome_eq_false_iff, Option.isNone_iff_eq_none] at unguarded
      rw [guard, unguarded]

theorem read_write_reread_of_parse {text path commit : String} {t : Tree}
    (parsed : parse text path commit = .ok (.ok t))
    (names : LineGraph.Writable ⟨path, commit, none⟩) (room : text.length < Text.wordLimit) :
    LineGraph.read .standard (LineGraph.write .standard [t]) =
      .ok [LineGraph.reread .labeled t] := by
  have legible : ∀ u ∈ [t], LineGraph.Legible .standard u := by
    intro u member
    obtain rfl := List.mem_singleton.mp member
    exact ⟨framed_of_parse parsed names room,
      fun n listed => (lettered_of_parse parsed n listed).readable⟩
  exact LineGraph.read_write_reread legible

private theorem writable_names : LineGraph.Writable ⟨"f", "c", none⟩ :=
  ⟨by decide, by decide, by decide, by decide, by decide, by simp⟩

/-- The tree of a patch that is written and read again is one tree, and the same but for the lines
of its nodes and the carriage returns that end labels; no more than lines is lost exactly when no
label ends in a carriage return. -/
theorem read_write_parse {text path commit : String} {t : Tree}
    (parsed : parse text path commit = .ok (.ok t))
    (names : LineGraph.Writable ⟨path, commit, none⟩) (room : text.length < Text.wordLimit) :
    ∃ u, LineGraph.read .standard (LineGraph.write .standard [t]) = .ok [u] ∧
      LineGraph.Returned t u ∧
      (u = t.mapNodes LineGraph.NodeFormat.labeled.keep ↔
        ∀ n ∈ t.nodes, n.label.toList.getLast? ≠ some '\r') := by
  have lettered := lettered_of_parse parsed
  exact ⟨_, read_write_reread_of_parse parsed names room, LineGraph.returned_reread lettered,
    LineGraph.reread_eq_iff lettered⟩

theorem read_write_parse_added :
    ∃ t, parse " #if A || B\n+x\r\n #endif\n" "f" "c" = .ok (.ok t) ∧
      (t.node 1).guard = some (.disj [.conj [.var "A"], .conj [.var "B"]]) ∧
      LineGraph.read .standard (LineGraph.write .standard [t]) =
        .ok [t.mapNodes LineGraph.NodeFormat.labeled.keep] := by
  have parses : parsesTo " #if A || B\n+x\r\n #endif\n" "f" "c" (fun t =>
      (t.node 1).guard = some (.disj [.conj [.var "A"], .conj [.var "B"]]) &&
        t.nodes.all fun n => n.label.toList.getLast? ≠ some '\r') := by decide +kernel
  obtain ⟨t, parsed, facts⟩ := exists_of_parsesTo parses
  simp only [Bool.and_eq_true, decide_eq_true_eq, Array.all_eq_true_iff_forall_mem] at facts
  obtain ⟨guard, ending⟩ := facts
  obtain ⟨u, read, -, whole⟩ := read_write_parse parsed writable_names (by decide)
  rw [whole.mpr ending] at read
  exact ⟨t, parsed, guard, read⟩

theorem not_read_write_parse :
    ∃ t u, parse " x\r\r\n" "f" "c" = .ok (.ok t) ∧
      LineGraph.Writable ⟨"f", "c", none⟩ ∧
      LineGraph.read .standard (LineGraph.write .standard [t]) = .ok [u] ∧
      (t.node 1).label = "x\r" ∧ (u.node 1).label = "x" := by
  have parses : parsesTo " x\r\r\n" "f" "c" (fun t => (t.node 1).label = "x\r") := by
    decide +kernel
  obtain ⟨t, parsed, label⟩ := exists_of_parsesTo parses
  have label : (t.node 1).label = "x\r" := of_decide_eq_true label
  have lost := (LineGraph.returned_reread (lettered_of_parse parsed)).label 1
  rw [label] at lost
  exact ⟨t, _, parsed, writable_names,
    read_write_reread_of_parse parsed writable_names (by decide), label, lost.trans (by decide)⟩

end Patch

end Variability
