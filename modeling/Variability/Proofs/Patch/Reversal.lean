import Variability.Proofs.Patch.Exchange
import Variability.Proofs.Patch.Remark
import Variability.Proofs.Presence.Reversal

/-!
Patches that take an edit back. With the markers of added and removed lines exchanged, a patch is
read line by line as before, and its tree is the old one with the two sides exchanged; so what is
said of its lines of code is what is said of them before, seen from the other side.
-/

namespace Variability.Patch

open Text (startsWith)

def oppositeMarker (c : Char) : Char :=
  if c = '+' then '-' else if c = '-' then '+' else c

theorem ofMarker_oppositeMarker (c : Char) :
    Edit.ofMarker (oppositeMarker c) = (Edit.ofMarker c).opposite := by
  unfold oppositeMarker Edit.ofMarker
  split
  · rfl
  · split <;> simp_all [Edit.opposite]

@[simp] theorem oppositeMarker_oppositeMarker (c : Char) :
    oppositeMarker (oppositeMarker c) = c := by
  unfold oppositeMarker
  split
  · simp_all
  · split <;> simp_all

/-- Added lines become removed ones, and removed lines added ones. -/
def reversal : Remarking where
  mark c := some (oppositeMarker c)
  edit e := some e.opposite
  faithful c := congrArg some (ofMarker_oppositeMarker c)
  fixed := by
    intro c member d
    have other : c ≠ '+' ∧ c ≠ '-' := by
      simp only [List.mem_cons, List.not_mem_nil, or_false] at member
      rcases member with rfl | rfl | rfl | rfl <;> decide
    have same : oppositeMarker c = c := by rw [oppositeMarker, if_neg other.1, if_neg other.2]
    rw [Option.some.injEq]
    constructor
    · rintro rfl
      rw [oppositeMarker_oppositeMarker] at same
      exact same
    · rintro rfl
      exact same

/-- The patch with the markers `+` and `-` exchanged on every line. -/
def reverse (text : String) : String :=
  reversal.text text

def reverseLine : List Char → List Char
  | [] => []
  | marker :: text => oppositeMarker marker :: text

def Entry.reversed (e : Entry) : Entry :=
  { e with edit := e.edit.opposite }

def Statement.reversed (st : Statement) : Statement :=
  { st with edit := st.edit.opposite }

def Reading.reversed (r : Reading) : Reading :=
  ⟨r.entries.map Entry.reversed, r.ending⟩

theorem line_reversal (line : List Char) : reversal.line line = some (reverseLine line) := by
  cases line <;> rfl

theorem lines_reverse (text : String) :
    Text.lines (reverse text).toList = (Text.lines text.toList).map reverseLine := by
  rw [reverse, Remarking.lines_text, funext line_reversal]
  exact congrFun (List.filterMap_eq_map (f := reverseLine)) _

theorem splitMarker_reverseLine (line : List Char) :
    splitMarker (reverseLine line) = ((splitMarker line).1.opposite, (splitMarker line).2) := by
  cases line with
  | nil => rfl
  | cons marker text => exact congrArg (·, text) (ofMarker_oppositeMarker marker)

theorem startsWith_reverseLine {c : Char} (fixed : c ∈ ['@', '\\']) (head line : List Char) :
    startsWith (c :: head) (reverseLine line) = startsWith (c :: head) line := by
  rw [Bool.eq_iff_iff]
  constructor
  · intro marked
    exact Decidable.byContradiction fun other =>
      Remarking.not_startsWith_line fixed (line_reversal line) other marked
  · intro marked
    have same := Remarking.line_eq_self (r := reversal) fixed marked
    rw [line_reversal, Option.some.injEq] at same
    rwa [same]

theorem reverseLine_of_header {line : List Char} (header : startsWith ['@', '@'] line) :
    reverseLine line = line := by
  have same := Remarking.line_eq_self (r := reversal) (by simp) header
  rwa [line_reversal, Option.some.injEq] at same

theorem Entry.ofText_opposite (edit : Edit) (lines : LineSpan) (text : List Char) :
    Entry.ofText edit.opposite lines text = (Entry.ofText edit lines text).map Entry.reversed := by
  unfold ofText
  cases Directive.ofLine text with
  | error e => rfl
  | ok found => obtain _ | ⟨kind, _ | guard⟩ := found <;> rfl

theorem piece_single_reverseLine (n : Nat) (line : List Char) :
    (Statement.single n (reverseLine line)).piece = (Statement.single n line).reversed.piece := by
  simp [Statement.single, Statement.reversed, Statement.piece, splitMarker_reverseLine]

theorem piece_join_reverseLine (st : Statement) (n : Nat) (line : List Char) :
    (st.reversed.join n (reverseLine line)).piece = (st.join n line).reversed.piece := by
  simp [Statement.join, Statement.reversed, Statement.piece, splitMarker_reverseLine]

theorem Statement.readBefore_reversed {st st' : Statement} (piece : st'.piece = st.reversed.piece)
    (below : Reading) : st'.readBefore below.reversed = (st.readBefore below).reversed := by
  obtain ⟨edit, lines, text⟩ : st'.edit = st.edit.opposite ∧ st'.lines = st.lines ∧
      st'.text = st.text := by
    simpa [Statement.piece, Statement.reversed] using piece
  rw [readBefore, readBefore, edit, lines, text, Entry.ofText_opposite]
  cases Entry.ofText st.edit st.lines st.text <;> rfl

/-- Behind a hunk header, lines with exchanged markers are read as the same entries with opposite
edits, and reading ends as before. -/
theorem read_reversed (lines : List (List Char)) (hunk : HunkRange) (n : Nat)
    (st? : Option Statement) :
    read (some hunk) n (st?.map (·.reversed.piece)) (lines.map reverseLine) =
      (read (some hunk) n (st?.map (·.piece)) lines).reversed := by
  induction lines generalizing hunk n st? with
  | nil =>
      cases st? with
      | none => rfl
      | some st => exact st.readBefore_reversed rfl (.done (some hunk))
  | cons line rest ih =>
      rw [List.map_cons]
      cases st? with
      | none =>
          have between (hunk : HunkRange) := ih hunk (n + 1) none
          have within := ih hunk (n + 1) (some (.single n line))
          rw [Option.map_none, Option.map_none, read_line, read_line,
            startsWith_reverseLine (by simp), startsWith_reverseLine (by simp)]
          split
          · next header =>
            rw [reverseLine_of_header header]
            cases HunkRange.ofHeader? line with
            | none => exact between hunk
            | some range =>
                simp only
                cases widen? (some hunk) range with
                | none => rfl
                | some wide => exact between wide
          · split
            · exact between hunk
            · have piece := piece_single_reverseLine n line
              have text : (Statement.single n (reverseLine line)).text =
                  (Statement.single n line).text := congrArg Piece.text piece
              have noFile (line : List Char) :
                  ¬ ((some hunk).isNone && isFileHeader line) := by simp
              rw [if_neg (noFile _), if_neg (noFile _), text, piece]
              split
              · exact within
              · rw [← Statement.readBefore_reversed piece]
                exact congrArg _ (between hunk)
      | some st =>
          have marker : (splitMarker (reverseLine line)).1 = st.reversed.edit ↔
              (splitMarker line).1 = st.edit := by
            rw [splitMarker_reverseLine]
            exact Edit.opposite_inj
          by_cases same : (splitMarker line).1 = st.edit
          · have piece := piece_join_reverseLine st n line
            have text : (st.reversed.join n (reverseLine line)).text = (st.join n line).text :=
              congrArg Piece.text piece
            rw [Option.map_some, Option.map_some, read_continuation (marker.mpr same),
              read_continuation same, text, piece]
            split
            · exact ih hunk (n + 1) (some (st.join n line))
            · rw [← Statement.readBefore_reversed piece]
              exact congrArg _ (ih hunk (n + 1) none)
          · rw [Option.map_some, Option.map_some, read_mixed (mt marker.mp same), read_mixed same]
            rfl

/-- A patch that starts with a hunk is read as the same entries with opposite edits. -/
theorem readLines_reversed {lines : List (List Char)}
    (first : (lines.head?.bind HunkRange.ofHeader?).isSome) :
    readLines (lines.map reverseLine) = (readLines lines).reversed := by
  obtain ⟨range, first⟩ := Option.isSome_iff_exists.mp first
  obtain ⟨line, head, header⟩ := Option.bind_eq_some_iff.mp first
  obtain ⟨rest, rfl⟩ := List.head?_eq_some_iff.mp head
  have marked := Remarking.startsWith_of_ofHeader? header
  rw [List.map_cons, reverseLine_of_header marked, readLines, readLines, read_line, read_line,
    if_pos marked, if_pos marked, header]
  exact read_reversed rest range 2 none

/-! The tree of entries with opposite edits. -/

theorem Entry.scope_reversed (e : Entry) (opened : List Nat) :
    e.reversed.scope opened = e.scope opened := rfl

theorem sideLines_reversed (s : Side) (es : List Entry) :
    sideLines s (es.map Entry.reversed) =
      (sideLines s.other es).map (Prod.map Entry.reversed id) := by
  rw [sideLines, List.zipIdx_map, List.filter_map, sideLines]
  congr 1
  refine List.filter_congr fun e _ => ?_
  simp [Entry.reversed]

theorem openBranches_reversed (s : Side) (es : List Entry) :
    openBranches s (es.map Entry.reversed) = openBranches s.other es := by
  rw [openBranches, sideLines_reversed, List.foldl_map]
  rfl

theorem parentIn_reversed (s : Side) (es : List Entry) (i : Nat) :
    parentIn s (es.map Entry.reversed) i = parentIn s.other es i := by
  cases i with
  | zero => rfl
  | succ k =>
      rw [parentIn, parentIn, List.getElem?_map, ← List.map_take, openBranches_reversed,
        Option.bind_map]
      refine Option.bind_congr fun e _ => ?_
      have present : e.reversed.edit.existsOn s = e.edit.existsOn s.other :=
        e.edit.existsOn_opposite s
      rw [Function.comp_apply, Entry.scope_reversed, present]

theorem scopes?_reversed (s : Side) (es : List Entry) :
    scopes? s (es.map Entry.reversed) = scopes? s.other es := by
  rw [scopes?, scopes?, sideLines_reversed, List.map_map]
  rfl

theorem Overlays.reversed {t : Tree} {es : List Entry} (overlays : Overlays t es) :
    Overlays t.reversed (es.map Entry.reversed) where
  size := by rw [Tree.size_reversed, List.length_map, overlays.size]
  shape := overlays.shape
  root := by
    rw [Tree.node_reversed, Node.bare_reversed, overlays.root]
    rfl
  entry := by
    intro k e lookup
    rw [List.getElem?_map] at lookup
    obtain ⟨f, found, rfl⟩ := Option.map_eq_some_iff.mp lookup
    rw [Tree.node_reversed, Node.bare_reversed, overlays.entry found]
    rfl
  parent := by
    intro s i
    rw [Tree.parent_reversed, parentIn_reversed, overlays.parent]
  children := by
    intro s p
    rw [Tree.children_reversed, Tree.size_reversed, overlays.children]
    simp only [Tree.parent_reversed]

/-- Entries have one tree, up to where it comes from. -/
theorem Overlays.unique {t u : Tree} {es : List Entry} (left : Overlays t es)
    (right : Overlays u es) (source : t.source = u.source) : t = u := by
  have size : t.size = u.size := by rw [left.size, right.size]
  have parent (s : Side) (i : Nat) : t.parent s i = u.parent s i := by
    rw [left.parent, right.parent]
  refine Tree.ext_views size (by rw [left.shape, right.shape]) source (fun i => ?_) parent ?_
  · rcases Nat.lt_or_ge i t.size with inside | outside
    · by_cases line : i = 0
      · rw [line, left.root, right.root]
      · obtain ⟨k, e, rfl, lookup⟩ := left.lookup inside line
        rw [left.entry lookup, right.entry lookup]
    · rw [Tree.node_of_size_le outside, Tree.node_of_size_le (size ▸ outside)]
  · intro s p
    rw [left.children, right.children, size]
    simp only [parent]

@[simp] theorem Entry.reversed_reversed (e : Entry) : e.reversed.reversed = e := by
  simp [reversed]

@[simp] theorem Reading.reversed_reversed (r : Reading) : r.reversed.reversed = r := by
  simp [reversed, Function.comp_def]

theorem Reading.proper_reversed {r : Reading} (proper : ∀ e ∈ r.entries, e.Proper) :
    ∀ e ∈ r.reversed.entries, e.Proper := by
  intro e member
  obtain ⟨f, listed, rfl⟩ := List.mem_map.mp member
  exact ⟨(proper f listed).line, (proper f listed).guarded⟩

theorem Reading.source_of_toTree {r : Reading} {source : Source} {t : Tree}
    (proper : ∀ e ∈ r.entries, e.Proper) (parsed : r.toTree source = .ok (.ok t)) :
    ∃ hunk, r.ending = .ok hunk ∧ t.source = { source with hunk } := by
  obtain ⟨built, hunk, placed, ending, rfl, -⟩ := (Reading.toTree_ok_iff proper).mp parsed
  refine ⟨hunk, ending, ?_⟩
  rw [Nesting.closed, Nesting.source_foldlM placed]
  rfl

/-- With opposite edits, entries that make a tree make the tree with its sides exchanged. -/
theorem Reading.toTree_reversed {r : Reading} {source : Source} {t : Tree}
    (proper : ∀ e ∈ r.entries, e.Proper) (parsed : r.toTree source = .ok (.ok t)) :
    r.reversed.toTree source = .ok (.ok t.reversed) := by
  have accepted := accepted_of_toTree proper parsed
  have closed (s : Side) : scopes? s r.reversed.entries = some [] := by
    rw [Reading.reversed, scopes?_reversed, accepted.closed]
  obtain ⟨hunk, ending, origin⟩ := source_of_toTree proper parsed
  obtain ⟨t', parsed'⟩ :=
    (exists_toTree_iff (proper_reversed proper) source).mpr ⟨⟨hunk, ending⟩, closed⟩
  have accepted' := accepted_of_toTree (proper_reversed proper) parsed'
  obtain ⟨hunk', ending', origin'⟩ := source_of_toTree (proper_reversed proper) parsed'
  obtain rfl : hunk = hunk' := Except.ok.inj (ending.symm.trans ending')
  have same : t' = t.reversed :=
    accepted'.overlays.unique accepted.overlays.reversed (origin'.trans origin.symm)
  rw [parsed', same]

/-- The edit that a patch makes and the edit that takes it back are parsed alike, to trees with
their sides exchanged, and their lines of code are classified alike. -/
theorem parse_reverse_iff {text : String} (path commit : String)
    (first : ((Text.lines text.toList).head?.bind HunkRange.ofHeader?).isSome) :
    ((∃ t, parse (reverse text) path commit = .ok (.ok t)) ↔
        ∃ t, parse text path commit = .ok (.ok t)) ∧
      ∀ t, parse text path commit = .ok (.ok t) →
        parse (reverse text) path commit = .ok (.ok t.reversed) ∧
        ∀ limit,
          (((t.reversed.analysis limit).classifyAll EditPattern.elementary).runFresh
              t.reversed).toOption =
            (((t.analysis limit).classifyAll EditPattern.elementary).runFresh t).toOption.map
              (·.map PatternMatch.reversed) := by
  have proper := entriesOf_proper text
  have reversed {t : Tree} (parsed : parse text path commit = .ok (.ok t)) :
      parse (reverse text) path commit = .ok (.ok t.reversed) := by
    rw [parse, lines_reverse, readLines_reversed first]
    exact Reading.toTree_reversed proper parsed
  refine ⟨⟨?_, fun ⟨t, parsed⟩ => ⟨t.reversed, reversed parsed⟩⟩, fun t parsed =>
    ⟨reversed parsed, fun limit => Analysis.classifyAll_reversed t (.bounded limit)⟩⟩
  rintro ⟨t, parsed⟩
  have back : (readLines (Text.lines text.toList)).reversed.toTree ⟨path, commit, none⟩ =
      .ok (.ok t) := by
    rw [← readLines_reversed first, ← lines_reverse]
    exact parsed
  refine ⟨t.reversed, ?_⟩
  rw [parse]
  simpa using Reading.toTree_reversed (Reading.proper_reversed proper) back

theorem parse_reverse_iff_narrowed :
    ∃ t found, parse "@@ -1,3 +1,3 @@\n-#if A\n+#if A && B\n x\n #endif\n" "f" "c" =
        .ok (.ok t) ∧
      ((t.analysis 2).classifyAll EditPattern.elementary).runFresh t = .ok [found] ∧
      found.pattern = .specialization ∧
      parse "@@ -1,3 +1,3 @@\n+#if A\n-#if A && B\n x\n #endif\n" "f" "c" =
        .ok (.ok t.reversed) ∧
      ((t.reversed.analysis 2).classifyAll EditPattern.elementary).runFresh t.reversed =
        .ok [found.reversed] := by
  have parses : parsesTo "@@ -1,3 +1,3 @@\n-#if A\n+#if A && B\n x\n #endif\n" "f" "c" (fun t =>
      (((t.analysis 2).classifyAll EditPattern.elementary).runFresh t).toOption.any fun all =>
        all.map (·.pattern) = [.specialization]) := by decide +kernel
  obtain ⟨t, parsed, specialized⟩ := exists_of_parsesTo parses
  have first : ((Text.lines
      "@@ -1,3 +1,3 @@\n-#if A\n+#if A && B\n x\n #endif\n".toList).head?.bind
        HunkRange.ofHeader?).isSome := by decide +kernel
  have taken : reverse "@@ -1,3 +1,3 @@\n-#if A\n+#if A && B\n x\n #endif\n" =
      "@@ -1,3 +1,3 @@\n+#if A\n-#if A && B\n x\n #endif\n" := by decide +kernel
  obtain ⟨parsedBack, classifiedBack⟩ := (parse_reverse_iff "f" "c" first).2 t parsed
  have classifiedBack := classifiedBack 2
  rw [taken] at parsedBack
  cases classified : ((t.analysis 2).classifyAll EditPattern.elementary).runFresh t with
  | error e => simp [classified, Except.toOption] at specialized
  | ok all =>
      obtain ⟨found, rfl, pattern⟩ : ∃ found, all = [found] ∧ found.pattern = .specialization := by
        simpa [classified, Except.toOption, List.map_eq_singleton_iff] using specialized
      refine ⟨t, found, parsed, classified, pattern, parsedBack, ?_⟩
      rw [classified] at classifiedBack
      cases back : ((t.reversed.analysis 2).classifyAll EditPattern.elementary).runFresh
          t.reversed with
      | error e => simp [back, Except.toOption] at classifiedBack
      | ok all => simpa [back, Except.toOption] using classifiedBack

end Variability.Patch
