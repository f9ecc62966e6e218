import Variability.Proofs.Text.Written

/-!
Text whose lines get other first characters, or none, in which case the line goes with what ends
it, and text without one of its lines. As long as line ends are left alone, the lines of such a text
are the lines it was made of, one by one.
-/

namespace Variability.Text

/-- The lines of a text with what ends them. -/
def rows (cs : List Char) : List (List Char) :=
  cs.foldr
    (fun c rest =>
      if c = '\n' then [c] :: rest
      else
        match rest with
        | [] => [[c]]
        | row :: rest => (c :: row) :: rest)
    []

/-- A line with another first character, if that has one. -/
def remarkLine (mark : Char → Option Char) : List Char → Option (List Char)
  | [] => some []
  | c :: cs => (mark c).map (· :: cs)

def remark (mark : Char → Option Char) (cs : List Char) : List Char :=
  ((rows cs).filterMap (remarkLine mark)).flatten

/-- A character stands for itself, and nothing else stands for it. -/
def Fixes (mark : Char → Option Char) (c : Char) : Prop :=
  ∀ d, mark d = some c ↔ d = c

theorem Fixes.self {mark : Char → Option Char} {c : Char} (fixed : Fixes mark c) :
    mark c = some c :=
  (fixed c).mpr rfl

/-! Texts, line by line. -/

theorem rows_newline (cs : List Char) : rows ('\n' :: cs) = ['\n'] :: rows cs := by
  simp [rows]

theorem rows_cons_of_cons {c : Char} (inside : c ≠ '\n') {cs row : List Char}
    {rest : List (List Char)} (behind : rows cs = row :: rest) :
    rows (c :: cs) = (c :: row) :: rest := by
  rw [rows, List.foldr_cons, ← rows, behind]
  simp [inside]

theorem rows_line {line : List Char} (whole : '\n' ∉ line) (cs : List Char) :
    rows (line ++ '\n' :: cs) = (line ++ ['\n']) :: rows cs := by
  induction line with
  | nil => exact rows_newline cs
  | cons c line ih =>
      rw [List.mem_cons, not_or] at whole
      exact rows_cons_of_cons (Ne.symm whole.1) (ih whole.2)

theorem rows_last {c : Char} {line : List Char} (whole : '\n' ∉ c :: line) :
    rows (c :: line) = [c :: line] := by
  induction line generalizing c with
  | nil => simp_all [rows]
  | cons d line ih =>
      rw [List.mem_cons, not_or] at whole
      exact rows_cons_of_cons (Ne.symm whole.1) (ih whole.2)

theorem lines_line {line : List Char} (whole : '\n' ∉ line) (cs : List Char) :
    lines (line ++ '\n' :: cs) = dropReturn line :: lines cs := by
  rw [lines, pieces_line whole, linesOfPieces_cons line (pieces_ne_nil cs), ← lines]

theorem pieces_last {line : List Char} (whole : '\n' ∉ line) : pieces line = [line] := by
  induction line with
  | nil => rfl
  | cons c line ih =>
      rw [List.mem_cons, not_or] at whole
      exact pieces_cons (Ne.symm whole.1) (ih whole.2)

theorem lines_last {c : Char} {line : List Char} (whole : '\n' ∉ c :: line) :
    lines (c :: line) = [c :: line] := by
  rw [lines, pieces_last whole]
  rfl

/-- A text is empty, or a line without an end, or a line with one and more text behind it. -/
theorem induction_lines {motive : List Char → Prop} (nil : motive [])
    (last : ∀ c line, '\n' ∉ c :: line → motive (c :: line))
    (line : ∀ line cs, '\n' ∉ line → motive cs → motive (line ++ '\n' :: cs)) (cs : List Char) :
    motive cs := by
  -- the line that is being read is carried along
  have carried (read : List Char) (whole : '\n' ∉ read) : motive (read ++ cs) := by
    induction cs generalizing read with
    | nil =>
        rw [List.append_nil]
        cases read with
        | nil => exact nil
        | cons c read => exact last c read whole
    | cons c cs ih =>
        by_cases ended : c = '\n'
        · rw [ended]
          exact line read cs whole (ih [] List.not_mem_nil)
        · rw [List.append_cons]
          exact ih (read ++ [c]) (by simp [whole, Ne.symm ended])
  exact carried [] List.not_mem_nil

/-- Text behind a line feed has its own lines. -/
theorem lines_append {cs : List Char} (ended : cs.getLast? = some '\n') (ds : List Char) :
    lines (cs ++ ds) = lines cs ++ lines ds := by
  induction cs using induction_lines with
  | nil => cases ended
  | last c line whole => exact absurd (List.mem_of_getLast? ended) whole
  | line line cs whole ih =>
      rw [List.append_assoc, List.cons_append, lines_line whole, lines_line whole]
      cases cs with
      | nil => rfl
      | cons c cs => rw [ih (by simpa [List.getLast?_append] using ended), List.cons_append]

theorem flatten_rows (cs : List Char) : (rows cs).flatten = cs := by
  induction cs using induction_lines with
  | nil => rfl
  | last c line whole => simp [rows_last whole]
  | line line cs whole ih => simp [rows_line whole, ih]

/-- A text without its `k`-th line, counted from 0, and what ends it. -/
def eraseLine (k : Nat) (cs : List Char) : List Char :=
  ((rows cs).eraseIdx k).flatten

theorem lines_eraseLine (k : Nat) (cs : List Char) :
    lines (eraseLine k cs) = (lines cs).eraseIdx k := by
  induction cs using induction_lines generalizing k with
  | nil => rfl
  | last c line whole =>
      rw [eraseLine, rows_last whole, lines_last whole]
      cases k with
      | zero => rfl
      | succ k => simp [lines_last whole]
  | line line cs whole ih =>
      rw [eraseLine, rows_line whole, lines_line whole]
      cases k with
      | zero => rw [List.eraseIdx_cons_zero, List.eraseIdx_cons_zero, flatten_rows]
      | succ k =>
          rw [List.eraseIdx_cons_succ, List.eraseIdx_cons_succ, List.flatten_cons, ← eraseLine,
            List.append_assoc, List.singleton_append, lines_line whole, ih]

section Remark

variable {mark : Char → Option Char} (feed : Fixes mark '\n') (ret : Fixes mark '\r')
include feed

theorem remark_line {line : List Char} (whole : '\n' ∉ line) (cs : List Char) :
    remark mark (line ++ '\n' :: cs) =
      ((remarkLine mark line).map (· ++ ['\n'])).getD [] ++ remark mark cs := by
  rw [remark, remark, rows_line whole]
  cases line with
  | nil => simp [remarkLine, feed.self]
  | cons c line =>
      cases marked : mark c with
      | none => simp [remarkLine, marked]
      | some d => simp [remarkLine, marked]

theorem newline_not_mem_remarkLine {line line' : List Char} (whole : '\n' ∉ line)
    (marked : remarkLine mark line = some line') : '\n' ∉ line' := by
  cases line with
  | nil =>
      cases marked
      exact whole
  | cons c line =>
      obtain ⟨d, other, rfl⟩ := Option.map_eq_some_iff.mp marked
      rw [List.mem_cons, not_or] at whole ⊢
      refine ⟨?_, whole.2⟩
      rintro rfl
      exact whole.1 ((feed c).mp other).symm

omit feed in
include ret in
theorem dropReturn_remarkLine (line : List Char) :
    remarkLine mark (dropReturn line) = (remarkLine mark line).map dropReturn := by
  cases line with
  | nil => rfl
  | cons c line =>
      cases line with
      | nil =>
          by_cases isReturn : c = '\r'
          · subst isReturn
            simp [dropReturn, remarkLine, ret.self]
          · have kept (d : Char) (other : mark c = some d) : d ≠ '\r' := by
              rintro rfl
              exact isReturn ((ret c).mp other)
            cases marked : mark c with
            | none => simp [dropReturn, remarkLine, isReturn, marked]
            | some d => simp [dropReturn, remarkLine, isReturn, marked, kept d marked]
      | cons d line =>
          have behind (c : Char) : dropReturn (c :: d :: line) = c :: dropReturn (d :: line) :=
            dropReturn_append [c] (List.cons_ne_nil d line)
          rw [behind, remarkLine, remarkLine, Option.map_map]
          exact Option.map_congr fun c _ => (behind c).symm

include ret in
/-- The lines are those of the text with other first characters. -/
theorem lines_remark (cs : List Char) :
    lines (remark mark cs) = (lines cs).filterMap (remarkLine mark) := by
  induction cs using induction_lines with
  | nil => rfl
  | last c line whole =>
      rw [lines_last whole, remark, rows_last whole]
      cases marked : remarkLine mark (c :: line) with
      | none => simp [marked, lines, pieces, linesOfPieces]
      | some line' =>
          have wholeToo := newline_not_mem_remarkLine feed whole marked
          obtain ⟨d, -, rfl⟩ := Option.map_eq_some_iff.mp marked
          simp [marked, lines_last wholeToo]
  | line line cs whole ih =>
      rw [lines_line whole, remark_line feed whole]
      cases marked : remarkLine mark line with
      | none =>
          have gone : remarkLine mark (dropReturn line) = none := by
            rw [dropReturn_remarkLine ret, marked, Option.map_none]
          rw [List.filterMap_cons_none gone, ← ih]
          rfl
      | some line' =>
          have kept : remarkLine mark (dropReturn line) = some (dropReturn line') := by
            rw [dropReturn_remarkLine ret, marked, Option.map_some]
          have wholeToo := newline_not_mem_remarkLine feed whole marked
          rw [List.filterMap_cons_some kept, ← ih, ← lines_line wholeToo]
          simp

end Remark

end Variability.Text
