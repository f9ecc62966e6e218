import Variability.Proofs.Patch.Lines
import Variability.Proofs.Patch.Outline
import Variability.Proofs.Text.Rows

/-!
Patches whose lines get other markers, or are dropped for having none. The markers of hunk headers
and of the lines that are skipped stay, and what becomes of an edit depends on the edit alone. Where
a patch starts with a hunk and can be read to its end, so can the other patch, and its entries are
those whose edit became one.
-/

namespace Variability.Patch

open Text (startsWith)

/-- What becomes of markers, and of the edits that they announce. -/
structure Remarking where
  mark : Char → Option Char
  edit : Edit → Option Edit
  faithful : ∀ c, (mark c).map Edit.ofMarker = edit (Edit.ofMarker c)
  fixed : ∀ c ∈ ['@', '\\', '\n', '\r'], Text.Fixes mark c

namespace Remarking

variable (r : Remarking)

def line : List Char → Option (List Char) :=
  Text.remarkLine r.mark

def text (text : String) : String :=
  String.ofList (Text.remark r.mark text.toList)

theorem lines_text (text : String) :
    Text.lines (r.text text).toList = (Text.lines text.toList).filterMap r.line := by
  rw [Remarking.text, String.toList_ofList]
  exact Text.lines_remark (r.fixed '\n' (by simp)) (r.fixed '\r' (by simp)) text.toList

/-- An entry and what becomes of it. -/
structure Becomes (e e' : Entry) : Prop where
  edit : r.edit e.edit = some e'.edit
  kind : e'.kind = e.kind
  label : e'.label = e.label
  guard : e'.guard = e.guard

/-- The entries that stay. -/
def stays (e : Entry) : Bool :=
  (r.edit e.edit).isSome

/-- The directives that are being continued in two patches, one being what became of the other. -/
inductive Follows : Option Statement → Option Statement → Prop
  | between : Follows none none
  | within {st st' : Statement} (edit : r.edit st.edit = some st'.edit)
    (text : st'.text = st.text) : Follows (some st) (some st')
  | dropped {st : Statement} (gone : r.edit st.edit = none) : Follows (some st) none

variable {r}

theorem edit_kept : r.edit .kept = some .kept := by
  have kept := r.faithful '@'
  rw [(r.fixed '@' (by simp)).self] at kept
  exact kept.symm

/-- A line goes when its edit goes, and otherwise has the new edit and the same text. -/
theorem line_cases (line : List Char) :
    (r.line line = none ∧ r.edit (splitMarker line).1 = none) ∨
      ∃ line', r.line line = some line' ∧
        r.edit (splitMarker line).1 = some (splitMarker line').1 ∧
        (splitMarker line').2 = (splitMarker line).2 := by
  cases line with
  | nil => exact .inr ⟨[], rfl, edit_kept, rfl⟩
  | cons c text =>
      have edit : (r.mark c).map Edit.ofMarker = r.edit (splitMarker (c :: text)).1 := r.faithful c
      cases marked : r.mark c with
      | none =>
          rw [marked] at edit
          exact .inl ⟨by simp [line, Text.remarkLine, marked], edit.symm⟩
      | some c' =>
          rw [marked] at edit
          exact .inr ⟨c' :: text, by simp [line, Text.remarkLine, marked], edit.symm, rfl⟩

theorem line_eq_self {c : Char} (fixed : c ∈ ['@', '\\']) {head line : List Char}
    (marked : startsWith (c :: head) line) : r.line line = some line := by
  obtain ⟨rest, after⟩ := Option.isSome_iff_exists.mp marked
  obtain rfl := Text.after?_eq_some_iff.mp after
  have stays : r.mark c = some c :=
    (r.fixed c (List.mem_append_left ['\n', '\r'] fixed)).self
  simp [Remarking.line, Text.remarkLine, stays]

theorem not_startsWith_line {c : Char} (fixed : c ∈ ['@', '\\']) {head line line' : List Char}
    (marked : r.line line = some line') (other : ¬ startsWith (c :: head) line) :
    ¬ startsWith (c :: head) line' := by
  cases line with
  | nil =>
      cases marked
      exact other
  | cons d text =>
      obtain ⟨d', became, rfl⟩ := Option.map_eq_some_iff.mp marked
      by_cases same : c = d'
      · subst same
        obtain rfl := (r.fixed c (List.mem_append_left ['\n', '\r'] fixed) d).mp became
        exact other
      · simp [startsWith, Text.after?, same]

theorem ofText_becomes {edit edit' : Edit} (became : r.edit edit = some edit') {lines : LineSpan}
    (lines' : LineSpan) {text : List Char} {e : Entry}
    (read : Entry.ofText edit lines text = .ok e) :
    ∃ e', Entry.ofText edit' lines' text = .ok e' ∧ r.Becomes e e' := by
  unfold Entry.ofText at read ⊢
  cases line : Directive.ofLine text with
  | error err =>
      rw [line] at read
      cases read
  | ok found =>
      rw [line] at read
      obtain _ | ⟨kind, _ | guard⟩ := found <;> cases read <;>
        exact ⟨_, rfl, became, rfl, rfl, rfl⟩

/-- The entries that stay become those of another list. -/
def Turns (r : Remarking) (es es' : List Entry) : Prop :=
  List.Forall₂ r.Becomes (es.filter r.stays) es'

/-- Reading that ends well still does for the other patch, and the entries are what became of those
that stay. -/
def Carries (r : Remarking) (below below' : Reading) : Prop :=
  ∀ es covered, below.Ends es covered → ∃ es', below'.Ends es' covered ∧ r.Turns es es'

theorem carries_stop (stop : Stop) (below' : Reading) : r.Carries (.stop stop) below' :=
  fun _ _ ends => absurd ends Reading.not_ends_stop

theorem carries_done (hunk : Option HunkRange) : r.Carries (.done hunk) (.done hunk) := by
  rintro es covered ⟨rfl, ending⟩
  exact ⟨[], ⟨rfl, ending⟩, .nil⟩

/-- A statement stays when its edit does. -/
theorem Carries.readBefore {below below' : Reading} (carries : r.Carries below below')
    {st st' : Statement} (edit : r.edit st.edit = some st'.edit) (text : st'.text = st.text) :
    r.Carries (st.readBefore below) (st'.readBefore below') := by
  intro es covered ends
  unfold Statement.readBefore at ends
  split at ends
  · exact absurd ends Reading.not_ends_stop
  · next e read =>
    obtain ⟨rest, rfl, endsBelow⟩ := Reading.ends_cons.mp ends
    obtain ⟨rest', endsBelow', turnsBelow⟩ := carries _ _ endsBelow
    obtain ⟨e', read', becomes⟩ := ofText_becomes edit st'.lines read
    have stays : r.stays e := by
      rw [Remarking.stays, becomes.edit, Option.isSome_some]
    refine ⟨e' :: rest', ?_, ?_⟩
    · rw [Statement.readBefore, text, read']
      exact Reading.ends_cons.mpr ⟨rest', rfl, endsBelow'⟩
    · rw [Turns, List.filter_cons_of_pos stays]
      exact .cons becomes turnsBelow

theorem Carries.readBefore_gone {below below' : Reading} (carries : r.Carries below below')
    {st : Statement} (gone : r.edit st.edit = none) : r.Carries (st.readBefore below) below' := by
  intro es covered ends
  unfold Statement.readBefore at ends
  split at ends
  · exact absurd ends Reading.not_ends_stop
  · next e read =>
    obtain ⟨rest, rfl, endsBelow⟩ := Reading.ends_cons.mp ends
    obtain ⟨rest', endsBelow', turnsBelow⟩ := carries _ _ endsBelow
    have leaves : ¬ r.stays e := by
      rw [Remarking.stays, Entry.ofText_edit read, gone]
      decide
    refine ⟨rest', endsBelow', ?_⟩
    rw [Turns, List.filter_cons_of_neg leaves]
    exact turnsBelow

/-- Behind a hunk header, lines are read alike with other markers. -/
def ReadsAlike (r : Remarking) (lines : List (List Char)) : Prop :=
  ∀ (hunk : HunkRange) (n n' : Nat) (st? st'? : Option Statement), r.Follows st? st'? →
    r.Carries (read (some hunk) n (st?.map (·.piece)) lines)
      (read (some hunk) n' (st'?.map (·.piece)) (lines.filterMap r.line))

theorem readsAlike_nil : r.ReadsAlike [] := by
  intro hunk n n' st? st'? follows
  cases follows with
  | between => exact carries_done _
  | within edit text => exact (carries_done _).readBefore edit text
  | dropped gone => exact (carries_done _).readBefore_gone gone

namespace ReadsAlike

variable {rest : List (List Char)} (alike : r.ReadsAlike rest)
include alike

theorem between (hunk : HunkRange) (n n' : Nat) :
    r.Carries (read (some hunk) n none rest) (read (some hunk) n' none (rest.filterMap r.line)) :=
  alike hunk n n' none none .between

theorem header {line : List Char} (header : startsWith ['@', '@'] line) (hunk : HunkRange)
    (n n' : Nat) :
    r.Carries (read (some hunk) n none (line :: rest))
      (read (some hunk) n' none ((line :: rest).filterMap r.line)) := by
  rw [List.filterMap_cons_some (line_eq_self (by simp) header), read_line, read_line,
    if_pos header, if_pos header]
  cases HunkRange.ofHeader? line with
  | none => exact alike.between hunk (n + 1) (n' + 1)
  | some range =>
      cases wide? : widen? (some hunk) range with
      | none =>
          simp only [wide?]
          exact carries_stop _ _
      | some wide =>
          simp only [wide?]
          exact alike.between wide (n + 1) (n' + 1)

/-- A line that is no header becomes a statement, or goes on with one. -/
theorem statement {line : List Char} (noHeader : ¬ startsWith ['@', '@'] line) (hunk : HunkRange)
    (n n' : Nat) :
    r.Carries (read (some hunk) n none (line :: rest))
      (read (some hunk) n' none ((line :: rest).filterMap r.line)) := by
  rw [read_line, if_neg noHeader]
  by_cases marker : startsWith ['\\'] line
  · rw [List.filterMap_cons_some (line_eq_self (by simp) marker), read_line, if_neg noHeader,
      if_pos marker, if_pos marker]
    exact alike.between hunk (n + 1) (n' + 1)
  · rw [if_neg marker, if_neg (by simp)]
    rcases line_cases line with ⟨gone, edit⟩ | ⟨line', became, edit, text⟩
    · rw [List.filterMap_cons_none gone]
      split
      · exact alike hunk _ _ (some (.single n line)) none (.dropped edit)
      · exact (alike.between hunk (n + 1) n').readBefore_gone edit
    · have noHeader' := not_startsWith_line (by simp) became noHeader
      have noMarker' := not_startsWith_line (by simp) became marker
      have noFile : ¬ ((some hunk).isNone && isFileHeader line') := by simp
      have sameText : (Statement.single n' line').text = (Statement.single n line).text := text
      rw [List.filterMap_cons_some became, read_line, if_neg noHeader', if_neg noMarker',
        if_neg noFile, sameText]
      split
      · exact alike hunk _ _ (some (.single n line)) (some (.single n' line')) (.within edit text)
      · exact (alike.between hunk (n + 1) (n' + 1)).readBefore edit text

theorem within {st st' : Statement} (edit : r.edit st.edit = some st'.edit)
    (text : st'.text = st.text) (line : List Char) (hunk : HunkRange) (n n' : Nat) :
    r.Carries (read (some hunk) n (some st.piece) (line :: rest))
      (read (some hunk) n' (some st'.piece) ((line :: rest).filterMap r.line)) := by
  by_cases same : (splitMarker line).1 = st.edit
  · rcases line_cases line with ⟨-, gone⟩ | ⟨line', became, editLine, textLine⟩
    · rw [same, edit] at gone
      cases gone
    · have same' : (splitMarker line').1 = st'.edit := by
        rw [same, edit] at editLine
        exact (Option.some.inj editLine).symm
      have joined : (st'.join n' line').text = (st.join n line).text := by
        rw [Statement.join, Statement.join, text, textLine]
      rw [List.filterMap_cons_some became, read_continuation same, read_continuation same', joined]
      split
      · exact alike hunk _ _ (some (st.join n line)) (some (st'.join n' line'))
          (.within edit joined)
      · exact (alike.between hunk (n + 1) (n' + 1)).readBefore edit joined
  · rw [read_mixed same]
    exact carries_stop _ _

theorem dropped {st : Statement} (gone : r.edit st.edit = none) (line : List Char)
    (hunk : HunkRange) (n n' : Nat) :
    r.Carries (read (some hunk) n (some st.piece) (line :: rest))
      (read (some hunk) n' none ((line :: rest).filterMap r.line)) := by
  by_cases same : (splitMarker line).1 = st.edit
  · rcases line_cases line with ⟨goneLine, -⟩ | ⟨line', -, editLine, -⟩
    · rw [read_continuation same, List.filterMap_cons_none goneLine]
      have goneToo : r.edit (st.join n line).edit = none := gone
      split
      · exact alike hunk _ _ (some (st.join n line)) none (.dropped goneToo)
      · exact (alike.between hunk (n + 1) n').readBefore_gone goneToo
    · rw [same, gone] at editLine
      cases editLine
  · rw [read_mixed same]
    exact carries_stop _ _

theorem cons (line : List Char) : r.ReadsAlike (line :: rest) := by
  intro hunk n n' st? st'? follows
  cases follows with
  | between =>
      by_cases header : startsWith ['@', '@'] line
      · exact alike.header header hunk n n'
      · exact alike.statement header hunk n n'
  | within edit text => exact alike.within edit text line hunk n n'
  | dropped gone => exact alike.dropped gone line hunk n n'

end ReadsAlike

theorem readsAlike (r : Remarking) (lines : List (List Char)) : r.ReadsAlike lines := by
  induction lines with
  | nil => exact readsAlike_nil
  | cons line rest ih => exact ih.cons line

theorem startsWith_of_ofHeader? {line : List Char} {range : HunkRange}
    (header : HunkRange.ofHeader? line = some range) : startsWith ['@', '@'] line := by
  obtain ⟨body, after, -⟩ := Option.bind_eq_some_iff.mp header
  rw [startsWith, after, Option.isSome_some]

/-- A patch that starts with a hunk is read alike with other markers. -/
theorem carries_readLines (r : Remarking) {lines : List (List Char)}
    (first : (lines.head?.bind HunkRange.ofHeader?).isSome) :
    r.Carries (readLines lines) (readLines (lines.filterMap r.line)) := by
  obtain ⟨range, first⟩ := Option.isSome_iff_exists.mp first
  obtain ⟨line, head, header⟩ := Option.bind_eq_some_iff.mp first
  obtain ⟨rest, rfl⟩ := List.head?_eq_some_iff.mp head
  have marked := startsWith_of_ofHeader? header
  rw [List.filterMap_cons_some (line_eq_self (by simp) marked), readLines, readLines, read_line,
    read_line, if_pos marked, if_pos marked, header]
  exact (r.readsAlike rest).between range 2 2

end Remarking

end Variability.Patch
