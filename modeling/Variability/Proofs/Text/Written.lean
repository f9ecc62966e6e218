import Mathlib.Data.List.Infix
import Mathlib.Data.List.TakeWhile
import Variability.Text.Blank
import Variability.Text.Cut
import Variability.Text.Lines
import Variability.Text.Number

/-!
Text that was written piece by piece and is read again. Lines come back as they were written but for
a carriage return at their end; numbers, fields and words come back as they are when nothing in
them looks like what separates them.
-/

namespace Variability.Text

/-! Lines. -/

theorem pieces_ne_nil (cs : List Char) : pieces cs ≠ [] := by
  induction cs with
  | nil => simp [pieces]
  | cons c cs ih =>
      rw [pieces, List.foldr_cons, ← pieces]
      split
      · simp
      · split <;> simp

theorem pieces_newline (cs : List Char) : pieces ('\n' :: cs) = [] :: pieces cs := by
  simp [pieces]

theorem pieces_cons {c : Char} (inside : c ≠ '\n') {cs piece : List Char} {rest : List (List Char)}
    (behind : pieces cs = piece :: rest) : pieces (c :: cs) = (c :: piece) :: rest := by
  rw [pieces, List.foldr_cons, ← pieces, behind]
  simp [inside]

theorem pieces_line {line : List Char} (whole : '\n' ∉ line) (cs : List Char) :
    pieces (line ++ '\n' :: cs) = line :: pieces cs := by
  induction line with
  | nil => exact pieces_newline cs
  | cons c line ih =>
      rw [List.mem_cons, not_or] at whole
      exact pieces_cons (Ne.symm whole.1) (ih whole.2)

theorem linesOfPieces_cons (piece : List Char) {rest : List (List Char)} (more : rest ≠ []) :
    linesOfPieces (piece :: rest) = dropReturn piece :: linesOfPieces rest := by
  cases rest with
  | nil => exact absurd rfl more
  | cons next rest => rfl

/-- Lines come back, but for a carriage return at their end. -/
theorem lines_unlines {ls : List (List Char)} (whole : ∀ l ∈ ls, '\n' ∉ l) :
    lines (unlines ls) = ls.map dropReturn := by
  induction ls with
  | nil => rfl
  | cons l ls ih =>
      rw [unlines_cons, lines, pieces_line (whole l (by simp)),
        linesOfPieces_cons l (pieces_ne_nil _), ← lines,
        ih fun m member => whole m (by simp [member]), List.map_cons]

theorem newline_not_mem_of_mem_pieces {cs piece : List Char} (member : piece ∈ pieces cs) :
    '\n' ∉ piece := by
  induction cs generalizing piece with
  | nil =>
      obtain rfl : piece = [] := by simpa [pieces] using member
      simp
  | cons c cs ih =>
      by_cases newline : c = '\n'
      · subst newline
        rw [pieces_newline] at member
        rcases List.mem_cons.mp member with rfl | later
        · simp
        · exact ih later
      · obtain ⟨first, rest, behind⟩ := List.exists_cons_of_ne_nil (pieces_ne_nil cs)
        rw [pieces_cons newline behind] at member
        rcases List.mem_cons.mp member with rfl | later
        · have whole : '\n' ∉ first := ih (by simp [behind])
          simp [Ne.symm newline, whole]
        · exact ih (by simp [behind, later])

theorem dropReturn_subset (line : List Char) : dropReturn line ⊆ line := by
  unfold dropReturn
  split
  · exact List.dropLast_subset line
  · exact fun _ member => member

theorem mem_linesOfPieces {ps : List (List Char)} {line : List Char}
    (member : line ∈ linesOfPieces ps) : ∃ piece ∈ ps, line ⊆ piece := by
  fun_induction linesOfPieces ps with
  | case1 => cases member
  | case2 last => cases member
  | case3 last => exact ⟨last, by simp, by simp_all⟩
  | case4 piece next rest ih =>
      rcases List.mem_cons.mp member with rfl | later
      · exact ⟨piece, by simp, dropReturn_subset piece⟩
      · obtain ⟨p, listed, within⟩ := ih later
        exact ⟨p, by simp [listed], within⟩

theorem newline_not_mem_of_mem_lines {cs line : List Char} (member : line ∈ lines cs) :
    '\n' ∉ line := by
  obtain ⟨piece, listed, within⟩ := mem_linesOfPieces member
  exact fun newline => newline_not_mem_of_mem_pieces listed (within newline)

theorem pieces_subset {cs piece : List Char} (member : piece ∈ pieces cs) : piece ⊆ cs := by
  induction cs generalizing piece with
  | nil =>
      obtain rfl : piece = [] := by simpa [pieces] using member
      exact List.nil_subset []
  | cons c cs ih =>
      by_cases newline : c = '\n'
      · subst newline
        rw [pieces_newline] at member
        rcases List.mem_cons.mp member with rfl | later
        · exact List.nil_subset _
        · exact List.subset_cons_of_subset _ (ih later)
      · obtain ⟨first, rest, behind⟩ := List.exists_cons_of_ne_nil (pieces_ne_nil cs)
        rw [pieces_cons newline behind] at member
        rcases List.mem_cons.mp member with rfl | later
        · exact List.cons_subset_cons c (ih (by simp [behind]))
        · exact List.subset_cons_of_subset _ (ih (by simp [behind, later]))

theorem lines_subset {cs line : List Char} (member : line ∈ lines cs) : line ⊆ cs := by
  obtain ⟨piece, listed, within⟩ := mem_linesOfPieces member
  exact List.Subset.trans within (pieces_subset listed)

/-- There are no more lines than characters. -/
theorem length_lines_le (cs : List Char) : (lines cs).length ≤ cs.length := by
  induction cs with
  | nil => simp [lines, pieces, linesOfPieces]
  | cons c cs ih =>
      rw [lines] at ih ⊢
      by_cases newline : c = '\n'
      · rw [newline, pieces_newline, linesOfPieces_cons [] (pieces_ne_nil cs)]
        simpa using ih
      · obtain ⟨first, rest, behind⟩ := List.exists_cons_of_ne_nil (pieces_ne_nil cs)
        rw [pieces_cons newline behind]
        rw [behind] at ih
        cases rest with
        | nil => simp [linesOfPieces]
        | cons next rest =>
            simp only [linesOfPieces, List.length_cons] at ih ⊢
            omega

theorem dropReturn_eq_self_iff {line : List Char} :
    dropReturn line = line ↔ line.getLast? ≠ some '\r' := by
  unfold dropReturn
  split
  · next last =>
    have : line ≠ [] := by
      rintro rfl
      cases last
    have length := congrArg List.length (List.dropLast_append_getLast this)
    simp only [last, ne_eq, not_true_eq_false, iff_false]
    intro same
    rw [same] at length
    simp at length
  · next other => simp [other]

theorem dropReturn_append (before : List Char) {line : List Char} (nonempty : line ≠ []) :
    dropReturn (before ++ line) = before ++ dropReturn line := by
  unfold dropReturn
  rw [List.getLast?_append_of_ne_nil before nonempty]
  split
  · exact List.dropLast_append_of_ne_nil nonempty
  · rfl

/-! Numbers. -/

theorem isDigit_of_mem_decimal {n : Nat} {c : Char} (member : c ∈ decimal n) : c.isDigit :=
  Nat.isDigit_of_mem_toDigits (by decide) (by decide) member

theorem decimal_ne_nil (n : Nat) : decimal n ≠ [] :=
  Nat.toDigits_ne_nil

theorem digitValue?_of_isDigit {c : Char} (digit : c.isDigit) :
    digitValue? 10 c = some (c.toNat - '0'.toNat) := by
  simp only [Char.isDigit, Bool.and_eq_true, decide_eq_true_eq] at digit
  have low : '0' ≤ c := digit.1
  have high : c ≤ '9' := digit.2
  have bound : c.toNat ≤ 57 := digit.2
  have small : c.toNat - 48 < 10 := by omega
  simp [digitValue?, low, high, Option.filter_some, small]

theorem readDigits?_of_isDigit {cs : List Char} (digits : ∀ c ∈ cs, c.isDigit) (value : Nat) :
    readDigits? 10 value cs = some (Nat.ofDigitChars 10 cs value) := by
  induction cs generalizing value with
  | nil => rfl
  | cons c cs ih =>
      rw [readDigits?, digitValue?_of_isDigit (digits c (by simp))]
      simp only
      rw [ih fun d member => digits d (by simp [member]), Nat.ofDigitChars_cons, Nat.mul_comm]

/-- A word comes back from its digits. -/
theorem readDecimal?_decimal {n : Nat} (word : n < wordLimit) :
    readDecimal? (decimal n) = some n := by
  have digits : ∀ c ∈ decimal n, c.isDigit := fun c member => isDigit_of_mem_decimal member
  have value : readDigits? 10 0 (decimal n) = some n := by
    rw [readDigits?_of_isDigit digits, decimal,
      Nat.ofDigitChars_toDigits (by decide) (by decide)]
  have unsigned (rest : List Char) : decimal n ≠ '+' :: rest := by
    intro signed
    have := digits '+' (by simp [signed])
    simp at this
  unfold readDecimal? readWord?
  split
  · next rest signed => exact absurd signed (unsigned rest)
  · simp [value, Option.filter_some, word, decimal_ne_nil]

theorem lt_wordLimit_of_readWord? {base : Nat} {cs : List Char} {n : Nat}
    (read : readWord? base cs = some n) : n < wordLimit := by
  have bounded {digits : List Char} (read : (if digits.isEmpty then none
      else (readDigits? base 0 digits).filter (· < wordLimit)) = some n) : n < wordLimit := by
    split at read
    · cases read
    · simpa using (Option.filter_eq_some_iff.mp read).2
  unfold readWord? at read
  split at read
  · exact bounded read
  · exact bounded read

/-! Fields. -/

theorem cut?_append {m : Char} {left : List Char} (absent : m ∉ left) (mark right : List Char) :
    cut? (m :: mark) (left ++ m :: mark ++ right) = some (left, right) := by
  induction left with
  | nil =>
      rw [List.nil_append, List.cons_append, cut?, ← List.cons_append, after?_append]
  | cons c left ih =>
      rw [List.mem_cons, not_or] at absent
      rw [List.cons_append, List.cons_append, cut?, after?, if_neg absent.1, ih absent.2]
      rfl

theorem cut?_eq_none {m : Char} {cs : List Char} (absent : m ∉ cs) (mark : List Char) :
    cut? (m :: mark) cs = none := by
  induction cs with
  | nil => rfl
  | cons c cs ih =>
      rw [List.mem_cons, not_or] at absent
      rw [cut?, after?, if_neg absent.1, ih absent.2]
      rfl

theorem cut?_of_after? {mark cs rest : List Char} (starts : after? mark cs = some rest) :
    cut? mark cs = some ([], rest) := by
  cases cs with
  | nil => rw [cut?, starts, Option.map_some]
  | cons c cs => rw [cut?, starts]

theorem cut?_cons {mark cs : List Char} {c : Char} (other : after? mark (c :: cs) = none) :
    cut? mark (c :: cs) = (cut? mark cs).map fun (left, right) => (c :: left, right) := by
  rw [cut?, other]

theorem exists_cut?_of_infix {mark cs : List Char} (inside : mark <:+: cs) :
    ∃ left right, cut? mark cs = some (left, right) := by
  obtain ⟨before, behind, rfl⟩ := inside
  rw [List.append_assoc]
  induction before with
  | nil => exact ⟨[], behind, cut?_of_after? (after?_append mark behind)⟩
  | cons c before ih =>
      rw [List.cons_append]
      cases starts : after? mark (c :: (before ++ (mark ++ behind))) with
      | some rest => exact ⟨[], rest, cut?_of_after? starts⟩
      | none =>
          obtain ⟨left, right, cut⟩ := ih
          exact ⟨c :: left, right, by rw [cut?_cons starts, cut, Option.map_some]⟩

/-- Whether a text starts in a certain way shows in its first characters. -/
theorem after?_append_eq_none {mark cs : List Char} (long : mark.length ≤ cs.length)
    {right : List Char} (other : after? mark (cs ++ right) = none) (right' : List Char) :
    after? mark (cs ++ right') = none := by
  rw [Option.eq_none_iff_forall_not_mem] at other ⊢
  intro rest starts
  have whole : mark <+: cs ++ right' := ⟨rest, (after?_eq_some_iff.mp starts).symm⟩
  obtain ⟨more, rfl⟩ := List.prefix_of_prefix_length_le whole (List.prefix_append cs right') long
  exact other (more ++ right) (after?_eq_some_iff.mpr (List.append_assoc mark more right))

theorem cut?_cases {mark cs left right : List Char} {c : Char}
    (cut : cut? mark (c :: cs) = some (c :: left, right)) :
    after? mark (c :: cs) = none ∧ cut? mark cs = some (left, right) := by
  cases starts : after? mark (c :: cs) with
  | some rest =>
      rw [cut?_of_after? starts] at cut
      cases cut
  | none =>
      rw [cut?_cons starts] at cut
      obtain ⟨⟨l, r⟩, found, same⟩ := Option.map_eq_some_iff.mp cut
      cases same
      exact ⟨rfl, found⟩

/-- The first mark stays the first one, whatever stands behind it. -/
theorem cut?_behind {mark cs left right : List Char} (cut : cut? mark cs = some (left, right))
    (other : List Char) : cut? mark (left ++ mark ++ other) = some (left, other) := by
  obtain rfl := eq_of_cut? cut
  induction left with
  | nil => exact cut?_of_after? (after?_append mark other)
  | cons c left ih =>
      obtain ⟨unstarted, later⟩ := cut?_cases cut
      have long : mark.length ≤ (c :: (left ++ mark)).length := by
        rw [List.length_cons, List.length_append]
        omega
      have unstarted' := after?_append_eq_none long unstarted other
      rw [List.cons_append] at unstarted'
      rw [List.cons_append, List.cons_append, cut?_cons unstarted', ih later, Option.map_some]

/-- There is no mark in front of the first one. -/
theorem cut?_left_eq_none {mark cs left right : List Char} (written : mark ≠ [])
    (cut : cut? mark cs = some (left, right)) : cut? mark left = none := by
  obtain rfl := eq_of_cut? cut
  induction left with
  | nil =>
      obtain ⟨m, ms, rfl⟩ := List.exists_cons_of_ne_nil written
      rfl
  | cons c left ih =>
      obtain ⟨unstarted, later⟩ := cut?_cases cut
      have unstarted' : after? mark (c :: left) = none := by
        rw [Option.eq_none_iff_forall_not_mem] at unstarted ⊢
        intro rest starts
        have whole := congrArg (· ++ (mark ++ right)) (after?_eq_some_iff.mp starts)
        exact unstarted (rest ++ mark ++ right) (after?_eq_some_iff.mpr (by simpa using whole))
      rw [cut?_cons unstarted', ih later, Option.map_none]

theorem not_infix_append {c : Char} {mark left right : List Char} (absent : c ∉ left)
    (unmarked : ¬ c :: mark <:+: right) : ¬ c :: mark <:+: left ++ right := by
  induction left with
  | nil => exact unmarked
  | cons d left ih =>
      rw [List.mem_cons, not_or] at absent
      rw [List.cons_append, List.infix_cons_iff, List.cons_prefix_cons]
      rintro (⟨same, -⟩ | inside)
      · exact absent.1 same
      · exact ih absent.2 inside

/-- A mark of two different characters cannot lie across the end of the text in front of it. -/
theorem cut?_pair {c d : Char} (different : c ≠ d) {left : List Char}
    (unmarked : ¬ [c, d] <:+: left) (right : List Char) :
    cut? [c, d] (left ++ [c, d] ++ right) = some (left, right) := by
  induction left with
  | nil => exact cut?_of_after? (after?_append [c, d] right)
  | cons x left ih =>
      rw [List.infix_cons_iff, not_or] at unmarked
      have unstarted : after? [c, d] (x :: (left ++ [c, d] ++ right)) = none := by
        rw [Option.eq_none_iff_forall_not_mem]
        intro rest starts
        obtain ⟨rfl, behind⟩ := List.cons.inj (after?_eq_some_iff.mp starts)
        cases left with
        | nil => exact different (List.cons.inj behind).1
        | cons y left =>
            obtain ⟨rfl, -⟩ := List.cons.inj behind
            exact unmarked.1 (List.prefix_append [x, y] left)
      rw [List.cons_append, List.cons_append, cut?_cons unstarted, ih unmarked.2, Option.map_some]

theorem cutLast?_append {m : Char} {right : List Char} (absent : m ∉ right)
    (left mark : List Char) :
    cutLast? (mark ++ [m]) (left ++ (mark ++ [m]) ++ right) = some (left, right) := by
  have whole : (left ++ (mark ++ [m]) ++ right).reverse =
      right.reverse ++ m :: mark.reverse ++ left.reverse := by simp
  have part : (mark ++ [m]).reverse = m :: mark.reverse := by simp
  rw [cutLast?, whole, part, cut?_append (by simpa using absent)]
  simp

theorem after?_subset {head cs rest : List Char} (starts : after? head cs = some rest) :
    rest ⊆ cs := by
  rw [after?_eq_some_iff.mp starts]
  exact List.subset_append_right head rest

theorem cut?_subset {mark cs left right : List Char} (cut : cut? mark cs = some (left, right)) :
    left ⊆ cs ∧ right ⊆ cs := by
  obtain rfl := eq_of_cut? cut
  exact ⟨List.Subset.trans (List.subset_append_left _ mark) (List.subset_append_left _ right),
    List.subset_append_right _ right⟩

theorem trimEnd_subset (text : List Char) : trimEnd text ⊆ text := by
  intro c member
  have inside := List.mem_reverse.mp member
  exact List.mem_reverse.mp ((List.dropWhile_sublist _).subset inside)

theorem fields_subset {mark : List Char} {count : Nat} {cs field : List Char}
    (member : field ∈ fields mark count cs) : field ⊆ cs := by
  induction count generalizing cs with
  | zero =>
      obtain rfl := List.mem_singleton.mp member
      exact List.Subset.refl field
  | succ count ih =>
      rw [fields] at member
      cases cut : cut? mark cs with
      | none =>
          rw [cut] at member
          obtain rfl := List.mem_singleton.mp member
          exact List.Subset.refl field
      | some parts =>
          obtain ⟨left, right⟩ := parts
          rw [cut] at member
          rcases List.mem_cons.mp member with rfl | later
          · exact (cut?_subset cut).1
          · exact List.Subset.trans (ih later) (cut?_subset cut).2

theorem getD_fields_subset (mark : List Char) (count i : Nat) (cs : List Char) :
    (fields mark count cs)[i]?.getD [] ⊆ cs := by
  cases found : (fields mark count cs)[i]? with
  | none => exact List.nil_subset cs
  | some field => exact fields_subset (List.mem_of_getElem? found)

/-! Words. -/

/-- Text without blanks in it, and not empty. -/
def Solid (word : List Char) : Prop :=
  word ≠ [] ∧ ∀ c ∈ word, isBlank c = false

instance (word : List Char) : Decidable (Solid word) :=
  decidable_of_iff (word ≠ [] ∧ word.all fun c => !isBlank c) (by simp [Solid])

/-- The runs between blanks, empty ones included. -/
def runs : List Char → List (List Char)
  | [] => [[]]
  | c :: cs =>
    if isBlank c then [] :: runs cs
    else
      match runs cs with
      | [] => [[c]]
      | run :: rest => (c :: run) :: rest

theorem words_eq (cs : List Char) : words cs = (runs cs).filter fun run => !run.isEmpty := by
  unfold words
  congr 1
  induction cs with
  | nil => rfl
  | cons c cs ih =>
      rw [List.foldr_cons, ih]
      rfl

theorem runs_of_forall {word : List Char} (blankless : ∀ c ∈ word, isBlank c = false)
    {cs first : List Char} {rest : List (List Char)} (behind : runs cs = first :: rest) :
    runs (word ++ cs) = (word ++ first) :: rest := by
  induction word with
  | nil => exact behind
  | cons c word ih =>
      rw [List.cons_append, runs, ih fun d member => blankless d (by simp [member])]
      simp [blankless c (by simp)]

theorem Solid.words {word : List Char} (solid : Solid word) : Text.words word = [word] := by
  have empty : runs [] = [] :: [] := rfl
  have run := runs_of_forall solid.2 empty
  rw [List.append_nil] at run
  rw [words_eq, run]
  simp [solid.1]

theorem Solid.words_append {word : List Char} (solid : Solid word) {c : Char} (blank : isBlank c)
    (rest : List Char) : Text.words (word ++ c :: rest) = word :: Text.words rest := by
  have behind : runs (c :: rest) = [] :: runs rest := by
    rw [runs, if_pos blank]
  rw [words_eq, runs_of_forall solid.2 behind, words_eq, List.append_nil,
    List.filter_cons_of_pos (by simpa using solid.1)]

theorem isBlank_eq_false_of_isDigit {c : Char} (digit : c.isDigit) : isBlank c = false := by
  simp only [Char.isDigit, Bool.and_eq_true, decide_eq_true_eq] at digit
  have low : 48 ≤ c.toNat := digit.1
  have high : c.toNat ≤ 57 := digit.2
  simp [isBlank, blankRanges]
  omega

theorem solid_decimal (n : Nat) : Solid (decimal n) :=
  ⟨decimal_ne_nil n, fun _ member => isBlank_eq_false_of_isDigit (isDigit_of_mem_decimal member)⟩

theorem not_mem_decimal {n : Nat} {c : Char} (other : c.isDigit = false) : c ∉ decimal n := by
  intro member
  rw [isDigit_of_mem_decimal member] at other
  cases other

/-! Trimmed text. -/

theorem trimEnd_append (before : List Char) {text : List Char} (visible : trimEnd text ≠ []) :
    trimEnd (before ++ text) = before ++ trimEnd text := by
  have visible : text.reverse.dropWhile isBlank ≠ [] := by simpa [trimEnd] using visible
  rw [trimEnd, List.reverse_append, List.dropWhile_append, if_neg (by simpa using visible)]
  simp [trimEnd]

theorem trimEnd_concat_blank (text : List Char) {c : Char} (blank : isBlank c) :
    trimEnd (text ++ [c]) = trimEnd text := by
  simp [trimEnd, blank]

theorem trimEnd_dropReturn (text : List Char) : trimEnd (dropReturn text) = trimEnd text := by
  rw [dropReturn]
  split
  · next last =>
    obtain ⟨front, rfl⟩ := List.getLast?_eq_some_iff.mp last
    rw [List.dropLast_concat, trimEnd_concat_blank front (by decide)]
  · rfl

theorem trimEnd_eq_self_iff {text : List Char} :
    trimEnd text = text ↔ ∀ c ∈ text.getLast?, isBlank c = false := by
  rw [trimEnd, List.reverse_eq_iff, ← List.head?_reverse]
  cases text.reverse with
  | nil => simp
  | cons c cs =>
      rw [List.dropWhile_eq_self_iff]
      simp

theorem Solid.trimEnd {word : List Char} (solid : Solid word) : Text.trimEnd word = word :=
  trimEnd_eq_self_iff.mpr fun c last => solid.2 c (List.mem_of_getLast? last)

theorem Solid.trimStart_append {word : List Char} (solid : Solid word) (rest : List Char) :
    trimStart (word ++ rest) = word ++ rest := by
  obtain ⟨c, cs, rfl⟩ := List.exists_cons_of_ne_nil solid.1
  have visible : isBlank c = false := solid.2 c (by simp)
  rw [List.cons_append, trimStart, List.dropWhile_cons_of_neg (by simp [visible])]

end Variability.Text
