import Mathlib.Order.Bounds.Basic
import Variability.Proofs.Patch.Unnumbered

/-!
Covering several ranges. However they are taken two by two, in any order, the range that comes out
goes on each side from the smallest start to the largest end. So the range of a patch is that of all
its hunk headers.
-/

namespace Variability

namespace HunkRange

/-- On each side, from the smallest start of some ranges to their largest end. -/
structure IsHull (hull : HunkRange) (ranges : List HunkRange) : Prop where
  oldStart : IsLeast (oldStart '' {r | r ∈ ranges}) hull.oldStart
  oldEnd : IsGreatest (oldEnd '' {r | r ∈ ranges}) hull.oldEnd
  newStart : IsLeast (newStart '' {r | r ∈ ranges}) hull.newStart
  newEnd : IsGreatest (newEnd '' {r | r ∈ ranges}) hull.newEnd

theorem eq_of_ends_eq {r s : HunkRange} (oldStart : r.oldStart = s.oldStart)
    (oldEnd : r.oldEnd = s.oldEnd) (newStart : r.newStart = s.newStart)
    (newEnd : r.newEnd = s.newEnd) : r = s := by
  obtain ⟨oldFirst, oldLength, newFirst, newLength⟩ := r
  subst oldStart newStart
  have oldSame : oldLength = s.oldLength := Nat.add_left_cancel oldEnd
  have newSame : newLength = s.newLength := Nat.add_left_cancel newEnd
  rw [oldSame, newSame]

theorem isHull_singleton (r : HunkRange) : r.IsHull [r] := by
  have only : {s | s ∈ [r]} = {r} := by ext s; simp
  constructor <;> rw [only, Set.image_singleton]
  · exact isLeast_singleton
  · exact isGreatest_singleton
  · exact isLeast_singleton
  · exact isGreatest_singleton

namespace IsHull

variable {hull other : HunkRange} {ranges more : List HunkRange}

theorem unique (isHull : hull.IsHull ranges) (isHullToo : other.IsHull ranges) : hull = other :=
  eq_of_ends_eq (isHull.oldStart.unique isHullToo.oldStart)
    (isHull.oldEnd.unique isHullToo.oldEnd) (isHull.newStart.unique isHullToo.newStart)
    (isHull.newEnd.unique isHullToo.newEnd)

theorem perm (isHull : hull.IsHull ranges) (perm : ranges.Perm more) : hull.IsHull more := by
  have same : {r | r ∈ ranges} = {r | r ∈ more} := Set.ext fun _ => perm.mem_iff
  obtain ⟨oldStart, oldEnd, newStart, newEnd⟩ := isHull
  rw [same] at oldStart oldEnd newStart newEnd
  exact ⟨oldStart, oldEnd, newStart, newEnd⟩

theorem append (isHull : hull.IsHull ranges) (isHullToo : other.IsHull more) :
    (hull.hull other).IsHull (ranges ++ more) := by
  have both (f : HunkRange → Nat) : f '' {r | r ∈ ranges ++ more} =
      f '' {r | r ∈ ranges} ∪ f '' {r | r ∈ more} := by
    rw [← Set.image_union]
    congr 1
    ext r
    exact List.mem_append
  constructor <;> rw [both]
  · exact isHull.oldStart.union isHullToo.oldStart
  · rw [oldEnd_hull]
    exact isHull.oldEnd.union isHullToo.oldEnd
  · exact isHull.newStart.union isHullToo.newStart
  · rw [newEnd_hull]
    exact isHull.newEnd.union isHullToo.newEnd

theorem ranges_ne_nil (isHull : hull.IsHull ranges) : ranges ≠ [] := by
  rintro rfl
  obtain ⟨r, member, -⟩ := isHull.oldStart.1
  exact List.not_mem_nil member

theorem foldl (isHull : hull.IsHull ranges) (more : List HunkRange) :
    (more.foldl HunkRange.hull hull).IsHull (ranges ++ more) := by
  induction more generalizing hull ranges with
  | nil => simpa using isHull
  | cons r more ih =>
      rw [List.foldl_cons, List.append_cons]
      exact ih (isHull.append (isHull_singleton r))

theorem fits (isHull : hull.IsHull ranges) (fit : ∀ r ∈ ranges, r.Fits) : hull.Fits := by
  obtain ⟨r, member, oldEnd⟩ := isHull.oldEnd.1
  obtain ⟨s, memberToo, newEnd⟩ := isHull.newEnd.1
  exact ⟨oldEnd ▸ (fit r member).1, newEnd ▸ (fit s memberToo).2⟩

end IsHull

/-- A way to cover ranges two by two. -/
inductive Covering where
  | one (range : HunkRange)
  | join (left right : Covering)

namespace Covering

/-- The ranges that are covered, in the order in which they are taken. -/
def ranges : Covering → List HunkRange
  | one range => [range]
  | join left right => left.ranges ++ right.ranges

def result? : Covering → Option HunkRange
  | one range => some range
  | join left right => do
    let hull ← left.result?
    let other ← right.result?
    hull.cover? other

theorem exists_result (c : Covering) (fit : ∀ r ∈ c.ranges, r.Fits) :
    ∃ hull, c.result? = some hull ∧ hull.IsHull c.ranges := by
  induction c with
  | one range => exact ⟨range, rfl, isHull_singleton range⟩
  | join left right ihLeft ihRight =>
      obtain ⟨fitLeft, fitRight⟩ := List.forall_mem_append.mp fit
      obtain ⟨hull, result, isHull⟩ := ihLeft fitLeft
      obtain ⟨other, resultToo, isHullToo⟩ := ihRight fitRight
      have covers : hull.cover? other = some (hull.hull other) :=
        cover?_eq_some_iff.mpr ⟨isHull.fits fitLeft, isHullToo.fits fitRight, rfl⟩
      refine ⟨hull.hull other, ?_, isHull.append isHullToo⟩
      rw [result?, result, resultToo]
      exact covers

end Covering

theorem exists_isHull {ranges : List HunkRange} (some : ranges ≠ []) :
    ∃ hull : HunkRange, hull.IsHull ranges := by
  obtain ⟨r, more, rfl⟩ := List.exists_cons_of_ne_nil some
  exact ⟨_, (isHull_singleton r).foldl more⟩

end HunkRange

namespace Patch

open Text (startsWith)

theorem exists_continued {inHunk : Bool} {n : Nat} {st : Statement} {lines : List (List Char)}
    (continued : st.continuations ≠ []) :
    ∃ st' ∈ (outline inHunk n (some st) lines).statements, st'.continuations ≠ [] := by
  induction lines generalizing n st with
  | nil => exact ⟨st, List.mem_singleton_self st, continued⟩
  | cons line rest ih =>
      have still : (st.join n line).continuations ≠ [] :=
        List.append_ne_nil_of_right_ne_nil _ (List.cons_ne_nil _ _)
      rw [outline_continuation]
      split
      · exact ih still
      · exact ⟨st.join n line, List.mem_cons_self, still⟩

/-- A directive that asks for one more line gets it, unless it stands in the last line. -/
theorem eq_nil_of_opened {inHunk : Bool} {n : Nat} {st : Statement} {lines : List (List Char)}
    (alone : ∀ st' ∈ (outline inHunk n (some st) lines).statements, st'.continuations = []) :
    lines = [] := by
  cases lines with
  | nil => rfl
  | cons line rest =>
      have joined : (st.join n line).continuations ≠ [] :=
        List.append_ne_nil_of_right_ne_nil _ (List.cons_ne_nil _ _)
      rw [outline_continuation] at alone
      split at alone
      · obtain ⟨st', listed, continued⟩ := exists_continued joined
        exact absurd (alone st' listed) continued
      · exact absurd (alone _ List.mem_cons_self) joined

/-- Where no directive is continued, every line that can be read as a hunk header is one. -/
theorem hunks_outline {inHunk : Bool} {n : Nat} {lines : List (List Char)}
    (alone : ∀ st ∈ (outline inHunk n none lines).statements, st.continuations = []) :
    (outline inHunk n none lines).hunks = lines.filterMap HunkRange.ofHeader? := by
  induction lines generalizing inHunk n with
  | nil => rfl
  | cons line rest ih =>
      rw [outline_line] at alone ⊢
      by_cases header : startsWith ['@', '@'] line = true
      · rw [if_pos header] at alone ⊢
        cases range : HunkRange.ofHeader? line with
        | none =>
            rw [range] at alone
            rw [List.filterMap_cons_none range]
            exact ih alone
        | some hunk =>
            rw [range] at alone
            rw [List.filterMap_cons_some range]
            exact congrArg (hunk :: ·) (ih alone)
      · have unread : HunkRange.ofHeader? line = none := by
          rw [Option.eq_none_iff_forall_ne_some]
          exact fun range read => header (Remarking.startsWith_of_ofHeader? read)
        rw [if_neg header] at alone ⊢
        rw [List.filterMap_cons_none unread]
        split at alone
        · next marker =>
          rw [if_pos marker]
          exact ih alone
        · next noMarker =>
          rw [if_neg noMarker]
          split at alone
          · next file =>
            rw [if_pos file]
            exact ih alone
          · next noFile =>
            rw [if_neg noFile]
            split at alone
            · next more =>
              rw [if_pos more]
              obtain rfl := eq_nil_of_opened alone
              rfl
            · next single =>
              rw [if_neg single]
              exact ih (List.forall_mem_cons.mp alone).2

theorem isHull_of_coverAll? {ranges : List HunkRange} {hunk : Option HunkRange}
    (covers : coverAll? none ranges = some hunk) :
    (hunk = none ↔ ranges = []) ∧ ∀ hull, hunk = some hull ↔ hull.IsHull ranges := by
  cases ranges with
  | nil =>
      cases covers
      exact ⟨by simp, fun hull => ⟨nofun, fun isHull => absurd rfl isHull.ranges_ne_nil⟩⟩
  | cons r more =>
      have isHull := (HunkRange.isHull_singleton r).foldl more
      obtain rfl := coverAll?_eq_some (r := r) covers
      refine ⟨by simp, fun hull => ⟨?_, fun isHullToo => congrArg some (isHull.unique isHullToo)⟩⟩
      rintro ⟨⟩
      exact isHull

/-- The ranges of the lines that can be read as hunk headers. -/
def headers (text : String) : List HunkRange :=
  (Text.lines text.toList).filterMap HunkRange.ofHeader?

/-- Ranges whose ends are words are covered by one range, however they are taken two by two: it goes
on each side from the smallest start to the largest end. The range of an accepted patch in which no
directive is continued goes around all its hunk headers, and there is none where no line is one. And
every range comes back when it is shown and read again. -/
theorem range_isHull :
    (∀ ranges : List HunkRange, ranges ≠ [] → (∀ r ∈ ranges, r.Fits) →
      ∃ hull : HunkRange, hull.IsHull ranges ∧ hull.Fits ∧
        ∀ c : HunkRange.Covering, c.ranges.Perm ranges → c.result? = some hull) ∧
    (∀ (text path commit : String) (t : Tree), parse text path commit = .ok (.ok t) →
      (∀ st ∈ (Outline.ofText text).statements, st.continuations = []) →
        (t.source.hunk = none ↔ headers text = []) ∧
        ∀ hull, t.source.hunk = some hull ↔ hull.IsHull (headers text)) ∧
    ∀ r : HunkRange, r.InWords → HunkRange.read? r.display.toList = some r := by
  refine ⟨?_, ?_, ?_⟩
  · intro ranges nonempty fit
    obtain ⟨hull, isHull⟩ := HunkRange.exists_isHull nonempty
    refine ⟨hull, isHull, isHull.fits fit, fun c perm => ?_⟩
    obtain ⟨found, result, isHullToo⟩ :=
      c.exists_result fun r member => fit r (perm.mem_iff.mp member)
    rw [result, isHull.unique (isHullToo.perm perm)]
  · intro text path commit t parsed alone
    obtain ⟨hunk, source, covers, -, -⟩ := passes_of_parse parsed
    have all : (Outline.ofText text).hunks = headers text := hunks_outline alone
    rw [source, ← all]
    exact isHull_of_coverAll? covers
  · intro r words
    rw [HunkRange.display, String.toList_ofList]
    exact HunkRange.read?_print words

/-- The second hunk stands before the first, and one of the spans is empty. -/
theorem range_isHull_out_of_order :
    (∃ hull : HunkRange, hull.IsHull [⟨20, 0, 21, 1⟩, ⟨1, 2, 1, 1⟩] ∧ hull.Fits ∧
      ∀ c : HunkRange.Covering, c.ranges.Perm [⟨20, 0, 21, 1⟩, ⟨1, 2, 1, 1⟩] →
        c.result? = some hull) ∧
    (∃ t, parse "@@ -20,0 +21,1 @@\n+x\n@@ -1,2 +1,1 @@\n-y\n z\n" "f" "c" = .ok (.ok t) ∧
      ∀ hull, t.source.hunk = some hull ↔ hull.IsHull [⟨20, 0, 21, 1⟩, ⟨1, 2, 1, 1⟩]) ∧
    HunkRange.read? (HunkRange.display ⟨1, 19, 1, 21⟩).toList = some ⟨1, 19, 1, 21⟩ := by
  refine ⟨range_isHull.1 _ (List.cons_ne_nil _ _) (by decide), ?_,
    range_isHull.2.2 _ ⟨by decide, by decide, by decide, by decide⟩⟩
  have parses : parsesTo "@@ -20,0 +21,1 @@\n+x\n@@ -1,2 +1,1 @@\n-y\n z\n" "f" "c"
      (fun _ => true) := by decide +kernel
  obtain ⟨t, parsed, -⟩ := exists_of_parsesTo parses
  have listed : headers "@@ -20,0 +21,1 @@\n+x\n@@ -1,2 +1,1 @@\n-y\n z\n" =
      [⟨20, 0, 21, 1⟩, ⟨1, 2, 1, 1⟩] := by decide +kernel
  have isHull := (range_isHull.2.1 _ "f" "c" t parsed (by decide +kernel)).2
  rw [listed] at isHull
  exact ⟨t, parsed, isHull⟩

end Patch

end Variability
