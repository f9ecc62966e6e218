import Variability.Proofs.Guard.Reparse
import Variability.Proofs.HunkRange
import Variability.Proofs.Patch.Lines

/-!
What a patch leaves in the labels of its entries. A label is one line; the label of a branch is the
normal form of its guard, so the guard is read off it again. A patch has no more entries than lines,
and the ends of its hunks are words.
-/

namespace Variability

namespace Directive

theorem split?_ok {line rest : List Char} {keyword : Keyword}
    (found : split? line = some (keyword, rest)) : '\n' ∉ rest := by
  unfold split? at found
  split at found
  · simp only at found
    split at found
    · cases found
    · next whole =>
      obtain ⟨known, -, pair⟩ := Option.map_eq_some_iff.mp found
      obtain ⟨-, rfl⟩ := Prod.mk.inj pair
      simpa using whole
  · cases found

theorem Keyword.read_normal {rest : List Char} (line : '\n' ∉ rest) {keyword : Keyword}
    {kind : NodeKind} {guard : Guard} (read : keyword.read rest = .ok ⟨kind, some guard⟩) :
    guard.Normal := by
  cases keyword with
  | expression kind =>
      cases parsed : Guard.parse rest with
      | error e => simp [Keyword.read, parsed, Except.map] at read
      | ok guard =>
          rw [Keyword.read, parsed] at read
          cases read
          exact Guard.normal_of_parse line parsed
  | macroName kind defined =>
      cases asked : macroGuard defined rest with
      | error e => simp [Keyword.read, asked, Except.map] at read
      | ok guard =>
          rw [Keyword.read, asked] at read
          cases read
          exact Guard.normal_of_macroGuard asked
  | bare kind => cases read

theorem ofLine_normal {line : List Char} {kind : NodeKind} {guard : Guard}
    (read : ofLine line = .ok (some ⟨kind, some guard⟩)) : guard.Normal := by
  unfold ofLine at read
  split at read
  · cases read
  · next keyword rest found =>
    cases readEq : keyword.read rest with
    | error e => simp [readEq, Except.map] at read
    | ok directive =>
        obtain rfl : directive = ⟨kind, some guard⟩ := by simpa [readEq, Except.map] using read
        exact Keyword.read_normal (split?_ok found) readEq

end Directive

/-- The label of a guard is a fixed point, and the label of a branch is read as its guard. -/
theorem Guard.label_fixed :
    (∀ cs g, Guard.parse cs = .ok g → Guard.parse g.label.toList = .ok g) ∧
      ∀ line directive, Directive.ofLine line = .ok (some directive) → directive.kind.hasGuard →
        ∃ g, directive.guard = some g ∧ Guard.parse g.label.toList = .ok g := by
  refine ⟨fun cs g parsed => parse_label_of_parse parsed, fun line directive read guarded => ?_⟩
  obtain ⟨kind, guard⟩ := directive
  have present : guard.isSome := by rw [(Directive.ofLine_ok read).2, guarded]
  obtain ⟨g, rfl⟩ := Option.isSome_iff_exists.mp present
  exact ⟨g, rfl, (Directive.ofLine_normal read).parse⟩

theorem Guard.label_fixed_unclosed :
    (∃ g, Guard.parse " defined( A ) &&! B>\"é".toList = .ok g ∧
        Guard.parse g.label.toList = .ok g) ∧
      ∃ g, Guard.parse g.label.toList = .ok g ∧ g.formula = .not (.var "A") := by
  have parsed : Guard.parse " defined( A ) &&! B>\"é".toList =
      .ok ⟨"defined(A) && !B > \"é", .and [.var "A", .not (.var "B > \"é")]⟩ := by
    decide +kernel
  have read : Directive.ofLine "#elifndef A".toList =
      .ok (some ⟨.elifBranch, some ⟨"!defined(A)", .not (.var "A")⟩⟩) := by decide +kernel
  obtain ⟨g, found, again⟩ := label_fixed.2 _ _ read rfl
  cases found
  exact ⟨⟨_, parsed, label_fixed.1 _ _ parsed⟩, _, again, rfl⟩

namespace Patch

/-- An entry whose label can be written on a line and whose guard is read off it again. -/
structure Entry.Labeled (e : Entry) : Prop where
  line : '\n' ∉ e.label.toList
  guard : ∀ f ∈ e.guard, ∃ guard : Guard, guard.Normal ∧ e.label = guard.label ∧ f = guard.formula

theorem Entry.Labeled.ofText {edit : Edit} {lines : LineSpan} {text : List Char} {e : Entry}
    (line : '\n' ∉ text) (read : Entry.ofText edit lines text = .ok e) : e.Labeled := by
  unfold Entry.ofText at read
  cases found : Directive.ofLine text with
  | error err => simp [found, Except.map] at read
  | ok directive =>
      rw [found] at read
      obtain _ | ⟨kind, _ | guard⟩ := directive
      · cases read
        exact ⟨by simpa using line, by simp⟩
      · cases read
        exact ⟨by simp, by simp⟩
      · cases read
        have normal := Directive.ofLine_normal found
        exact ⟨normal.line, fun f member => ⟨guard, normal, rfl, (Option.some.inj member).symm⟩⟩

theorem splitMarker_subset (line : List Char) : (splitMarker line).2 ⊆ line := by
  cases line with
  | nil => simp [splitMarker]
  | cons marker text => simp [splitMarker]

theorem continued?_subset {text before : List Char} (continues : continued? text = some before) :
    before ⊆ text := by
  have split := Text.before?_eq_some_iff.mp continues
  intro c member
  apply Text.trimEnd_subset text
  rw [split]
  exact List.mem_append_left _ member

/-- A continued directive and the line that continues it are one line. -/
theorem newline_not_mem_join {text more : List Char} (line : '\n' ∉ text) (lineToo : '\n' ∉ more) :
    '\n' ∉ (continued? text).getD text ++ ' ' :: Text.trimStart more := by
  have before : '\n' ∉ (continued? text).getD text := by
    cases continues : continued? text with
    | none => exact line
    | some before => exact fun member => line (continued?_subset continues member)
  have after : '\n' ∉ Text.trimStart more :=
    fun member => lineToo ((List.dropWhile_sublist _).subset member)
  simp [before, after]

theorem read_labeled (hunk : Option HunkRange) (n : Nat) {open? : Option Piece}
    {lines : List (List Char)} (piece : ∀ p ∈ open?, '\n' ∉ p.text)
    (whole : ∀ l ∈ lines, '\n' ∉ l) : ∀ e ∈ (read hunk n open? lines).entries, e.Labeled := by
  have marked {l text : List Char} {edit : Edit} (line : '\n' ∉ l)
      (split : splitMarker l = (edit, text)) : '\n' ∉ text := by
    have subset := splitMarker_subset l
    rw [split] at subset
    exact fun member => line (subset member)
  have before {e : Entry} {r : Reading} (labeled : e.Labeled) (rest : ∀ e ∈ r.entries, e.Labeled) :
      ∀ f ∈ (r.cons e).entries, f.Labeled :=
    List.forall_mem_cons.mpr ⟨labeled, rest⟩
  have nothing : ∀ e ∈ ([] : List Entry), e.Labeled := by simp
  fun_induction read hunk n open? lines with
  | case1 | case2 | case5 | case10 | case12 | case14 => exact nothing
  | case3 hunk n p e made => exact before (.ofText (piece p rfl) made) nothing
  | case4 hunk n line rest _ _ ih | case7 hunk n line rest _ _ ih
  | case8 hunk n line rest _ _ _ ih | case6 hunk n line rest _ _ _ _ _ ih =>
      exact ih piece (List.forall_mem_cons.mp whole).2
  | case9 hunk n line rest _ _ _ edit text split _ ih =>
      obtain ⟨first, later⟩ := List.forall_mem_cons.mp whole
      refine ih ?_ later
      rintro p ⟨⟩
      exact marked first split
  | case11 hunk n line rest _ _ _ edit text split _ e made ih =>
      obtain ⟨first, later⟩ := List.forall_mem_cons.mp whole
      exact before (.ofText (marked first split) made) (ih piece later)
  | case13 hunk n p line rest edit more split _ text lines _ ih =>
      obtain ⟨first, later⟩ := List.forall_mem_cons.mp whole
      refine ih ?_ later
      rintro p ⟨⟩
      exact newline_not_mem_join (piece _ rfl) (marked first split)
  | case15 hunk n p line rest edit more split _ text lines _ e made ih =>
      obtain ⟨first, later⟩ := List.forall_mem_cons.mp whole
      have joined := newline_not_mem_join (piece p rfl) (marked first split)
      exact before (.ofText joined made) (ih (by simp) later)

theorem length_entries_le (hunk : Option HunkRange) (n : Nat) (open? : Option Piece)
    (lines : List (List Char)) :
    (read hunk n open? lines).entries.length ≤ lines.length + open?.toList.length := by
  fun_induction read hunk n open? lines <;>
    simp_all [Reading.stop, Reading.done, Reading.cons] <;> omega

theorem inWords_of_widen? {hunk : Option HunkRange} {range hull : HunkRange}
    (words : ∀ r ∈ hunk, r.InWords) (wordsToo : range.InWords)
    (widened : widen? hunk range = some hull) : hull.InWords := by
  cases hunk with
  | none =>
      cases widened
      exact wordsToo
  | some first => exact HunkRange.inWords_of_cover? widened (words first rfl) wordsToo

/-- The hunks of a patch lie within a range of words. -/
theorem read_inWords {hunk : Option HunkRange} (words : ∀ r ∈ hunk, r.InWords) (n : Nat)
    (open? : Option Piece) (lines : List (List Char)) {found : Option HunkRange}
    (ending : (read hunk n open? lines).ending = .ok found) : ∀ r ∈ found, r.InWords := by
  fun_induction read hunk n open? lines with
  | case1 | case3 =>
      cases ending
      exact words
  | case2 | case5 | case10 | case12 | case14 => cases ending
  | case6 hunk n line rest _ range header hull widened ih =>
      refine ih ?_ ending
      rintro r ⟨⟩
      exact inWords_of_widen? words (HunkRange.inWords_of_ofHeader? header) widened
  | case4 _ _ _ _ _ _ ih | case7 _ _ _ _ _ _ ih | case8 _ _ _ _ _ _ _ ih
  | case9 _ _ _ _ _ _ _ _ _ _ _ ih | case11 _ _ _ _ _ _ _ _ _ _ _ _ _ ih
  | case13 _ _ _ _ _ _ _ _ _ _ _ _ ih | case15 _ _ _ _ _ _ _ _ _ _ _ _ _ _ ih =>
      exact ih words ending

end Patch

end Variability
