import Variability.Proofs.Guard.Keyword
import Variability.Proofs.Patch.Labels
import Variability.Proofs.Patch.Overflow
import Variability.Proofs.Patch.Remark
import Variability.Proofs.Text.Rows
import Variability.Proofs.Tree.Sequel

/-!
Patches one behind the other. Where the first ends with a line of its own, and with no directive
that asks for one more, the second is read as it is read alone: its lines have higher numbers, and
its hunks widen the range of those before.
-/

namespace Variability

namespace Patch

open Text (startsWith)

def Statement.later (n : Nat) (st : Statement) : Statement :=
  { st with lines := st.lines.later n }

def Entry.later (n : Nat) (e : Entry) : Entry :=
  { e with lines := e.lines.later n }

@[simp] theorem Statement.text_later (n : Nat) (st : Statement) : (st.later n).text = st.text := rfl

namespace Outline

def later (n : Nat) (o : Outline) : Outline :=
  { o with statements := o.statements.map (·.later n) }

def append (o p : Outline) : Outline :=
  ⟨o.hunks ++ p.hunks, o.statements ++ p.statements⟩

/-- No directive is left that asks for one more line. -/
def Settled (o : Outline) : Prop :=
  ∀ st ∈ o.statements.getLast?, Directive.isDirective st.text → continued? st.text = none

instance (o : Outline) : Decidable o.Settled :=
  decidable_of_iff (o.statements.getLast?.all fun st =>
    !Directive.isDirective st.text || (continued? st.text).isNone) (by
      unfold Settled
      cases o.statements.getLast? with
      | none => simp
      | some st => cases directive : Directive.isDirective st.text <;> simp [directive])

instance (o : Outline) : Decidable o.Fits :=
  decidable_of_iff (coverAll? none o.hunks).isSome Option.isSome_iff_exists

end Outline

/-- A directive that asks for one more line. -/
structure Statement.Asks (st : Statement) : Prop where
  directive : Directive.isDirective st.text
  more : (continued? st.text).isSome

/-- A directive stays one with the lines that continue it. -/
theorem Statement.Asks.isDirective_join {st : Statement} (asks : st.Asks) (n : Nat)
    {line : List Char} (whole : '\n' ∉ line) : Directive.isDirective (st.join n line).text := by
  obtain ⟨before, continues⟩ := Option.isSome_iff_exists.mp asks.more
  obtain ⟨blanks, split⟩ : ∃ blanks, st.text = before ++ '\\' :: blanks := by
    have trimmed := Text.before?_eq_some_iff.mp continues
    have parts := List.takeWhile_append_dropWhile (p := Text.isBlank) (l := st.text.reverse)
    refine ⟨(st.text.reverse.takeWhile Text.isBlank).reverse, ?_⟩
    rw [Text.trimEnd] at trimmed
    rw [List.append_cons, ← trimmed, ← List.reverse_append, parts, List.reverse_reverse]
  have directive := asks.directive
  rw [split] at directive
  rw [join, continues, Option.getD_some]
  refine Directive.isDirective_replace directive rfl (by decide) (by decide +kernel)
    (by decide +kernel) ?_
  have wholeMore : '\n' ∉ (splitMarker line).2 := by
    cases line with
    | nil => exact whole
    | cons marker more => exact fun newline => whole (List.mem_cons_of_mem marker newline)
  have trimmed : '\n' ∉ Text.trimStart (splitMarker line).2 := fun newline =>
    wholeMore ((List.dropWhile_sublist _).subset newline)
  simpa using trimmed

theorem Statement.asks_iff {st : Statement} :
    st.Asks ↔ (Directive.isDirective st.text && (continued? st.text).isSome) = true := by
  rw [Bool.and_eq_true]
  exact ⟨fun asks => ⟨asks.directive, asks.more⟩, fun ⟨directive, more⟩ => ⟨directive, more⟩⟩

namespace Outline

/-- The directive that is left waiting for one more line. -/
def waiting? (o : Outline) : Option Statement :=
  o.statements.getLast?.filter fun st =>
    Directive.isDirective st.text && (continued? st.text).isSome

/-- The outline without the directive that is left waiting. -/
def finished (o : Outline) : Outline :=
  if o.waiting?.isSome then { o with statements := o.statements.dropLast } else o

theorem settled_iff {o : Outline} : o.Settled ↔ o.waiting? = none := by
  rw [waiting?, Option.filter_eq_none_iff]
  refine forall_congr' fun st => imp_congr_right fun _ => ?_
  rw [← Statement.asks_iff, ← Option.not_isSome_iff_eq_none]
  exact ⟨fun settled asks => settled asks.directive asks.more,
    fun alone directive more => alone ⟨directive, more⟩⟩

theorem asks_of_waiting? {o : Outline} {st : Statement} (waits : o.waiting? = some st) :
    st.Asks := by
  rw [waiting?, Option.filter_eq_some_iff] at waits
  exact Statement.asks_iff.mpr waits.2

variable {o : Outline} {st : Statement} (alone : ¬ st.Asks)
include alone

theorem waiting?_cons :
    ({ o with statements := st :: o.statements } : Outline).waiting? = o.waiting? := by
  have gone := mt Statement.asks_iff.mpr alone
  rw [waiting?, waiting?]
  cases statements : o.statements with
  | nil =>
      rw [List.getLast?_singleton, List.getLast?_nil, Option.filter_none, Option.filter_eq_none_iff]
      rintro _ ⟨⟩
      exact gone
  | cons next rest => rw [List.getLast?_cons_cons]

theorem finished_cons :
    ({ o with statements := st :: o.statements } : Outline).finished =
      { o.finished with statements := st :: o.finished.statements } := by
  rw [finished, finished, waiting?_cons alone]
  split
  · next waits =>
    cases statements : o.statements with
    | nil => simp [waiting?, statements] at waits
    | cons next rest => rfl
  · rfl

omit alone in
theorem finished_hunk (range : HunkRange) :
    ({ o with hunks := range :: o.hunks } : Outline).finished =
      { o.finished with hunks := range :: o.finished.hunks } := by
  have waits : ({ o with hunks := range :: o.hunks } : Outline).waiting? = o.waiting? := rfl
  rw [finished, finished, waits]
  split <;> rfl

end Outline

theorem outline_later (inHunk : Bool) (m n : Nat) (opened : Option Statement)
    (lines : List (List Char)) :
    outline inHunk (m + n) (opened.map (·.later m)) lines =
      (outline inHunk n opened lines).later m := by
  induction lines generalizing inHunk n opened with
  | nil => cases opened <;> rfl
  | cons line rest ih =>
      have below (inHunk : Bool) := ih inHunk (n + 1) none
      rw [Option.map_none, ← Nat.add_assoc] at below
      cases opened with
      | none =>
          have asked := ih inHunk (n + 1) (some (.single n line))
          have single : Statement.single (m + n) line = (Statement.single n line).later m := rfl
          rw [Option.map_none, outline_line, outline_line]
          simp only [below, single, Statement.text_later]
          split
          · cases HunkRange.ofHeader? line <;> rfl
          · split
            · rfl
            · split
              · rfl
              · split
                · exact asked
                · rfl
      | some st =>
          have asked := ih inHunk (n + 1) (some (st.join n line))
          have joined : (st.later m).join (m + n) line = (st.join n line).later m := rfl
          rw [Option.map_some, outline_continuation, outline_continuation]
          simp only [below, joined, Statement.text_later]
          split
          · exact asked
          · rfl

/-- What a line does to the outline, whatever comes behind it. -/
inductive OutlineEffect (inHunk : Bool) (n : Nat) (opened : Option Statement) (line : List Char) :
    Prop where
  | skip
      (outlines : ∀ rest, outline inHunk n opened (line :: rest) = outline inHunk (n + 1) none rest)
  | header (range : HunkRange)
      (outlines : ∀ rest, outline inHunk n opened (line :: rest) =
        { outline true (n + 1) none rest with
          hunks := range :: (outline true (n + 1) none rest).hunks })
  | asks (st : Statement) (asks : st.Asks)
      (begins : st.lines.first = opened.elim n (·.lines.first))
      (outlines : ∀ rest, outline inHunk n opened (line :: rest) =
        outline inHunk (n + 1) (some st) rest)
  | ends (st : Statement) (alone : ¬ st.Asks)
      (begins : st.lines.first = opened.elim n (·.lines.first))
      (outlines : ∀ rest, outline inHunk n opened (line :: rest) =
        { outline inHunk (n + 1) none rest with
          statements := st :: (outline inHunk (n + 1) none rest).statements })

theorem outlineEffect_none (inHunk : Bool) (n : Nat) (line : List Char) :
    OutlineEffect inHunk n none line := by
  have outlines := outline_line inHunk n line
  by_cases isHeader : startsWith ['@', '@'] line
  · simp only [isHeader, if_true] at outlines
    cases header : HunkRange.ofHeader? line with
    | none =>
        rw [header] at outlines
        exact .skip outlines
    | some range =>
        rw [header] at outlines
        exact .header range outlines
  · by_cases skipped : startsWith ['\\'] line ∨ (!inHunk && isFileHeader line) = true
    · refine .skip fun rest => (outlines rest).trans ?_
      rw [if_neg isHeader]
      rcases skipped with isMarker | isFile
      · rw [if_pos isMarker]
      · rw [if_pos isFile, ite_self]
    · obtain ⟨noMarker, noFile⟩ := not_or.mp skipped
      simp only [isHeader, noMarker, noFile, if_false, Bool.false_eq_true] at outlines
      by_cases more : (Statement.single n line).Asks
      · simp only [Statement.asks_iff.mp more, if_true] at outlines
        exact .asks (.single n line) more rfl outlines
      · simp only [mt Statement.asks_iff.mpr more, if_false, Bool.false_eq_true] at outlines
        exact .ends (.single n line) more rfl outlines

theorem outlineEffect (inHunk : Bool) (n : Nat) {opened : Option Statement}
    (asks : ∀ st ∈ opened, st.Asks) {line : List Char} (whole : '\n' ∉ line) :
    OutlineEffect inHunk n opened line := by
  cases opened with
  | none => exact outlineEffect_none inHunk n line
  | some st =>
      have outlines := outline_continuation inHunk n st line
      have directive := (asks st rfl).isDirective_join n whole
      by_cases more : (continued? (st.join n line).text).isSome = true
      · simp only [more, if_true] at outlines
        exact .asks (st.join n line) ⟨directive, more⟩ rfl outlines
      · simp only [more, if_false, Bool.false_eq_true] at outlines
        exact .ends (st.join n line) (fun asks => more asks.more) rfl outlines

/-- What stands behind some lines is outlined as if it stood alone, but for the directive that those
lines leave waiting and for the hunk header among them. -/
theorem outline_append {first : List (List Char)} (whole : ∀ line ∈ first, '\n' ∉ line)
    (inHunk : Bool) (n : Nat) {opened : Option Statement} (asks : ∀ st ∈ opened, st.Asks)
    (second : List (List Char)) :
    outline inHunk n opened (first ++ second) =
      (outline inHunk n opened first).finished.append
        (outline (inHunk || !(outline inHunk n opened first).hunks.isEmpty) (n + first.length)
          (outline inHunk n opened first).waiting? second) := by
  induction first generalizing inHunk n opened with
  | nil =>
      cases opened with
      | none => simp [outline, Outline.append, Outline.finished, Outline.waiting?]
      | some st =>
          have waits : (⟨[], [st]⟩ : Outline).waiting? = some st :=
            Option.filter_eq_some_iff.mpr ⟨rfl, Statement.asks_iff.mp (asks st rfl)⟩
          simp [outline, Outline.append, Outline.finished, waits]
  | cons line rest ih =>
      have ih := @ih fun line member => whole line (List.mem_cons_of_mem _ member)
      have below (inHunk : Bool) := @ih inHunk (n + 1) none (by simp)
      have behind : n + (line :: rest).length = n + 1 + rest.length := by
        rw [List.length_cons]
        omega
      rw [List.cons_append, behind]
      cases outlineEffect inHunk n asks (whole line List.mem_cons_self) with
      | skip outlines =>
          rw [outlines, outlines]
          exact below inHunk
      | header range outlines =>
          rw [outlines, outlines, below true, Bool.true_or,
            Outline.finished_hunk, List.isEmpty_cons, Bool.not_false, Bool.or_true]
          rfl
      | asks st asks begins outlines =>
          rw [outlines, outlines]
          exact ih inHunk (n + 1) (by simpa using asks)
      | ends st alone begins outlines =>
          rw [outlines, outlines, below inHunk, Outline.finished_cons alone,
            Outline.waiting?_cons alone]
          rfl

theorem outline_append_settled {first : List (List Char)} (whole : ∀ line ∈ first, '\n' ∉ line)
    (inHunk : Bool) (n : Nat) (settled : (outline inHunk n none first).Settled)
    (second : List (List Char)) :
    outline inHunk n none (first ++ second) =
      (outline inHunk n none first).append
        (outline (inHunk || !(outline inHunk n none first).hunks.isEmpty) (n + first.length) none
          second) := by
  have waits := Outline.settled_iff.mp settled
  rw [outline_append whole inHunk n (by simp), waits, Outline.finished, waits]
  rfl

theorem outline_remark (inHunk : Bool) (n : Nat) (remark : List Char) (rest : List (List Char)) :
    outline inHunk n none (('\\' :: remark) :: rest) = outline inHunk (n + 1) none rest := by
  rw [outline_line, if_neg (by simp [Text.startsWith, Text.after?]),
    if_pos (by simp [Text.startsWith, Text.after?])]

/-- The outline of the first lines of a patch. -/
def Outline.ofLines (lines : List (List Char)) : Outline :=
  outline false 1 none lines

/-- The outline of a patch is that of its first lines with that of the lines behind them. -/
theorem Outline.ofText_eq_append {text : String} {above below : List (List Char)}
    (lines : Text.lines text.toList = above ++ below) :
    Outline.ofText text = (ofLines above).finished.append
      (outline (!(ofLines above).hunks.isEmpty) (1 + above.length) (ofLines above).waiting?
        below) := by
  have whole : ∀ line ∈ above, '\n' ∉ line := fun line listed =>
    Text.newline_not_mem_of_mem_lines (lines ▸ List.mem_append_left below listed)
  rw [ofText, lines, outline_append whole false 1 (by simp), Bool.false_or]
  rfl

/-! Entries and ranges of a patch behind another. -/

theorem Entry.ofText_later (edit : Edit) (n : Nat) (lines : LineSpan) (text : List Char) :
    Entry.ofText edit (lines.later n) text =
      (Entry.ofText edit lines text).map (Entry.later n) := by
  unfold ofText
  cases Directive.ofLine text with
  | error e => rfl
  | ok found => obtain _ | ⟨kind, _ | guard⟩ := found <;> rfl

theorem Statement.line?_later (n : Nat) (st : Statement) :
    (st.later n).line? = st.line?.map (Entry.later n) := by
  rw [line?, line?, later, Entry.ofText_later]
  cases Entry.ofText st.edit st.lines st.text <;> rfl

theorem coverAll?_eq_some {r : HunkRange} {ranges : List HunkRange}
    {covered : Option HunkRange} (covers : coverAll? (some r) ranges = some covered) :
    covered = some (ranges.foldl HunkRange.hull r) := by
  induction ranges generalizing r with
  | nil => exact (Option.some.inj covers).symm
  | cons next ranges ih =>
      obtain ⟨wide, widened, below⟩ := Option.bind_eq_some_iff.mp covers
      obtain ⟨-, -, rfl⟩ := HunkRange.cover?_eq_some_iff.mp widened
      exact ih below

theorem foldl_hull (r s : HunkRange) (ranges : List HunkRange) :
    ranges.foldl HunkRange.hull (r.hull s) = r.hull (ranges.foldl HunkRange.hull s) := by
  induction ranges generalizing s with
  | nil => rfl
  | cons range ranges ih => rw [List.foldl_cons, List.foldl_cons, HunkRange.hull_assoc, ih]

/-- The range of the hunks of two patches is the range around theirs. -/
theorem coverAll?_append {r s : HunkRange} {rs ss : List HunkRange}
    {first second both : Option HunkRange} (covers : coverAll? none (r :: rs) = some first)
    (coversToo : coverAll? none (s :: ss) = some second)
    (coversBoth : coverAll? none (r :: rs ++ s :: ss) = some both) :
    ∃ p q, first = some p ∧ second = some q ∧ both = some (p.hull q) := by
  refine ⟨_, _, coverAll?_eq_some covers, coverAll?_eq_some coversToo, ?_⟩
  rw [List.cons_append] at coversBoth
  rw [coverAll?_eq_some (r := r) coversBoth, List.foldl_append, List.foldl_cons, foldl_hull]

/-- Two patches that can stand one behind the other: both start with a hunk, the first ends with its
last line and leaves no directive open, and their hunks fit into one range. -/
structure Joins (first second : String) : Prop where
  header : ((Text.lines first.toList).head?.bind HunkRange.ofHeader?).isSome
  headerToo : ((Text.lines second.toList).head?.bind HunkRange.ofHeader?).isSome
  ended : first.toList.getLast? = some '\n'
  settled : (Outline.ofText first).Settled
  fits : ((Outline.ofText first).append (Outline.ofText second)).Fits

instance (first second : String) : Decidable (Joins first second) :=
  decidable_of_iff
    (((Text.lines first.toList).head?.bind HunkRange.ofHeader?).isSome ∧
      ((Text.lines second.toList).head?.bind HunkRange.ofHeader?).isSome ∧
      first.toList.getLast? = some '\n' ∧ (Outline.ofText first).Settled ∧
      ((Outline.ofText first).append (Outline.ofText second)).Fits)
    ⟨fun ⟨header, headerToo, ended, settled, fits⟩ => ⟨header, headerToo, ended, settled, fits⟩,
      fun joins => ⟨joins.header, joins.headerToo, joins.ended, joins.settled, joins.fits⟩⟩

/-- The number of lines of a patch. -/
def lineCount (text : String) : Nat :=
  (Text.lines text.toList).length

theorem outline_of_header {line : List Char} {range : HunkRange}
    (header : HunkRange.ofHeader? line = some range) (inHunk : Bool) (n : Nat)
    (rest : List (List Char)) :
    outline inHunk n none (line :: rest) =
      ⟨range :: (outline true (n + 1) none rest).hunks,
        (outline true (n + 1) none rest).statements⟩ := by
  rw [outline_line, if_pos (Remarking.startsWith_of_ofHeader? header), header]

theorem exists_hunks {text : String}
    (header : ((Text.lines text.toList).head?.bind HunkRange.ofHeader?).isSome) :
    ∃ line rest range, Text.lines text.toList = line :: rest ∧
      HunkRange.ofHeader? line = some range ∧
      (Outline.ofText text).hunks = range :: (outline true 2 none rest).hunks := by
  obtain ⟨range, header⟩ := Option.isSome_iff_exists.mp header
  obtain ⟨line, head, header⟩ := Option.bind_eq_some_iff.mp header
  obtain ⟨rest, lines⟩ := List.head?_eq_some_iff.mp head
  refine ⟨line, rest, range, lines, header, ?_⟩
  rw [Outline.ofText, lines, outline_of_header header]

namespace Joins

variable {first second : String} (joins : Joins first second)
include joins

theorem lines_eq : Text.lines (first ++ second).toList =
    Text.lines first.toList ++ Text.lines second.toList := by
  rw [String.toList_append, Text.lines_append joins.ended]

theorem ofText_eq : Outline.ofText (first ++ second) =
    (Outline.ofText first).append ((Outline.ofText second).later (lineCount first)) := by
  obtain ⟨line, rest, range, lines, header, -⟩ := exists_hunks joins.header
  obtain ⟨lineToo, restToo, rangeToo, linesToo, headerToo, -⟩ := exists_hunks joins.headerToo
  have whole : ∀ l ∈ rest, '\n' ∉ l := by
    intro l member
    exact Text.newline_not_mem_of_mem_lines
      (show l ∈ Text.lines first.toList by simp [lines, member])
  have alone : Outline.ofText first = ⟨range :: (outline true 2 none rest).hunks,
      (outline true 2 none rest).statements⟩ := by
    rw [Outline.ofText, lines, outline_of_header header]
  have settled : (outline true 2 none rest).Settled := by
    have settled := joins.settled
    rwa [alone] at settled
  have count : 2 + rest.length = lineCount first + 1 := by
    rw [lineCount, lines, List.length_cons]
    omega
  have moved : outline true (lineCount first + 1) none (Text.lines second.toList) =
      (Outline.ofText second).later (lineCount first) := by
    rw [linesToo, outline_of_header headerToo, ← outline_of_header headerToo false, ← linesToo]
    exact outline_later false (lineCount first) 1 none (Text.lines second.toList)
  rw [Outline.ofText, joins.lines_eq, lines, List.cons_append, outline_of_header header,
    outline_append_settled whole true 2 settled, Bool.true_or, count, moved, alone]
  rfl

/-- What the readings of the two amount to together. -/
theorem ends {es fs : List Entry} {covered coveredToo : Option HunkRange}
    (ends : (readLines (Text.lines first.toList)).Ends es covered)
    (endsToo : (readLines (Text.lines second.toList)).Ends fs coveredToo) :
    ∃ p q, covered = some p ∧ coveredToo = some q ∧
      (readLines (Text.lines (first ++ second).toList)).Ends
        (es ++ fs.map (Entry.later (lineCount first))) (some (p.hull q)) := by
  have passes {text : String} {es : List Entry} {covered : Option HunkRange} :
      (readLines (Text.lines text.toList)).Ends es covered ↔
        (Outline.ofText text).Passes none es covered :=
    read_ends_iff none (by simp) es
  obtain ⟨covers, sound, rfl⟩ := passes.mp ends
  obtain ⟨coversToo, soundToo, rfl⟩ := passes.mp endsToo
  obtain ⟨-, rest, range, -, -, hunks⟩ := exists_hunks joins.header
  obtain ⟨-, restToo, rangeToo, -, -, hunksToo⟩ := exists_hunks joins.headerToo
  obtain ⟨both, fits⟩ := joins.fits
  rw [Outline.append, hunks, hunksToo] at fits
  rw [hunks] at covers
  rw [hunksToo] at coversToo
  obtain ⟨p, q, rfl, rfl, rfl⟩ := coverAll?_append covers coversToo fits
  refine ⟨p, q, rfl, rfl, passes.mpr ?_⟩
  rw [joins.ofText_eq]
  refine ⟨?_, ?_, ?_⟩
  · rw [Outline.append, Outline.later, hunks, hunksToo]
    exact fits
  · intro st member
    rcases List.mem_append.mp member with early | late
    · exact sound st early
    · obtain ⟨st, listed, rfl⟩ := List.mem_map.mp late
      exact soundToo st listed
  · rw [Outline.append, Outline.later, List.filterMap_append, List.filterMap_map,
      List.map_filterMap]
    exact congrArg _ (List.filterMap_congr fun st _ => (st.line?_later _).symm)

end Joins

end Patch

end Variability
