import Variability.HunkRange
import Variability.Proofs.Text.Written

/-!
Ranges made of 64-bit words. They come back when they are written and read again; every range that
is read is one, and so is the range around two ranges whose ends are words.
-/

namespace Variability

namespace HunkRange

/-- All four numbers are 64-bit words. -/
structure InWords (r : HunkRange) : Prop where
  oldStart : r.oldStart < Text.wordLimit
  oldLength : r.oldLength < Text.wordLimit
  newStart : r.newStart < Text.wordLimit
  newLength : r.newLength < Text.wordLimit

def printSpan (sign : Char) (start length : Nat) : List Char :=
  sign :: (Text.decimal start ++ ',' :: Text.decimal length)

theorem print_eq (r : HunkRange) :
    r.print = printSpan '-' r.oldStart r.oldLength ++
      ' ' :: printSpan '+' r.newStart r.newLength := by
  simp [print, printSpan]

theorem solid_printSpan {sign : Char} (visible : Text.isBlank sign = false) (start length : Nat) :
    Text.Solid (printSpan sign start length) := by
  refine ⟨by simp [printSpan], ?_⟩
  intro c member
  simp only [printSpan, List.mem_cons, List.mem_append] at member
  rcases member with rfl | digit | rfl | digit
  · exact visible
  · exact (Text.solid_decimal start).2 c digit
  · rfl
  · exact (Text.solid_decimal length).2 c digit

theorem readSpan?_printSpan (sign : Char) {start length : Nat} (word : start < Text.wordLimit)
    (wordToo : length < Text.wordLimit) :
    readSpan? sign (printSpan sign start length) = some (start, length) := by
  have marked : Text.after? [sign] (printSpan sign start length) =
      some (Text.decimal start ++ ',' :: Text.decimal length) :=
    Text.after?_append [sign] _
  have halves : Text.cut? [','] (Text.decimal start ++ ',' :: Text.decimal length) =
      some (Text.decimal start, Text.decimal length) := by
    have absent : ',' ∉ Text.decimal start := Text.not_mem_decimal (by decide)
    have cut := Text.cut?_append absent [] (Text.decimal length)
    rwa [List.append_assoc] at cut
  simp [readSpan?, marked, halves, Text.readDecimal?_decimal word,
    Text.readDecimal?_decimal wordToo]

theorem read?_print {r : HunkRange} (words : r.InWords) : read? r.print = some r := by
  have split : Text.words r.print =
      [printSpan '-' r.oldStart r.oldLength, printSpan '+' r.newStart r.newLength] := by
    rw [print_eq, (solid_printSpan (by decide) _ _).words_append (by decide),
      (solid_printSpan (by decide) _ _).words]
  simp [read?, split, readSpan?_printSpan _ words.oldStart words.oldLength,
    readSpan?_printSpan _ words.newStart words.newLength]

theorem getLast?_print (r : HunkRange) : ∃ c, r.print.getLast? = some c ∧ c.isDigit := by
  have ends := List.getLast?_eq_some_getLast (Text.decimal_ne_nil r.newLength)
  refine ⟨_, ?_, Text.isDigit_of_mem_decimal (List.getLast_mem (Text.decimal_ne_nil r.newLength))⟩
  rw [print, List.getLast?_append_of_ne_nil _ (by simp), List.getLast?_cons,
    ends]
  rfl

theorem not_mem_print {r : HunkRange} {c : Char} (digit : c.isDigit = false)
    (other : c ∉ ['-', '+', ',', ' ']) : c ∉ r.print := by
  have absent (n : Nat) : c ∉ Text.decimal n := Text.not_mem_decimal digit
  simp only [List.mem_cons, List.not_mem_nil, or_false, not_or] at other
  simp [print, absent, other]

/-! Ranges that are read. -/

theorem inWords_of_readSpan? {sign : Char} {cs : List Char} {start length : Nat}
    (read : readSpan? sign cs = some (start, length)) :
    start < Text.wordLimit ∧ length < Text.wordLimit := by
  obtain ⟨body, -, read⟩ := Option.bind_eq_some_iff.mp read
  split at read
  · obtain ⟨s, first, read⟩ := Option.bind_eq_some_iff.mp read
    obtain ⟨l, second, pair⟩ := Option.bind_eq_some_iff.mp read
    cases pair
    exact ⟨Text.lt_wordLimit_of_readWord? first, Text.lt_wordLimit_of_readWord? second⟩
  · obtain ⟨s, first, pair⟩ := Option.bind_eq_some_iff.mp read
    cases pair
    exact ⟨Text.lt_wordLimit_of_readWord? first, by decide⟩

theorem inWords_of_read? {cs : List Char} {r : HunkRange} (read : read? cs = some r) :
    r.InWords := by
  unfold read? at read
  split at read
  · obtain ⟨⟨oldStart, oldLength⟩, old, read⟩ := Option.bind_eq_some_iff.mp read
    obtain ⟨⟨newStart, newLength⟩, new, range⟩ := Option.bind_eq_some_iff.mp read
    cases range
    obtain ⟨word, wordToo⟩ := inWords_of_readSpan? old
    obtain ⟨newWord, newWordToo⟩ := inWords_of_readSpan? new
    exact ⟨word, wordToo, newWord, newWordToo⟩
  · cases read

theorem inWords_of_ofHeader? {line : List Char} {r : HunkRange}
    (header : ofHeader? line = some r) : r.InWords := by
  obtain ⟨body, -, header⟩ := Option.bind_eq_some_iff.mp header
  obtain ⟨⟨range, behind⟩, -, read⟩ := Option.bind_eq_some_iff.mp header
  exact inWords_of_read? read

theorem inWords_of_cover? {r s hull : HunkRange} (cover : r.cover? s = some hull)
    (words : r.InWords) (wordsToo : s.InWords) : hull.InWords := by
  unfold cover? at cover
  split at cover
  · next fits =>
    obtain ⟨⟨oldFits, newFits⟩, oldFitsToo, newFitsToo⟩ := fits
    cases cover
    have := words.oldStart
    have := words.newStart
    have := wordsToo.oldStart
    have := wordsToo.newStart
    constructor <;> simp only [HunkRange.hull] <;> omega
  · cases cover

end HunkRange

end Variability
