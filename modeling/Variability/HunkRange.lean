import Variability.Text.Blank
import Variability.Text.Cut
import Variability.Text.Number

/-!
The lines that a hunk spans in the old and in the new file, written `-a,b +c,d`. Starts, lengths
and ends are 64-bit words; the range covering two others exists only when all ends are.
-/

namespace Variability

structure HunkRange where
  oldStart : Nat
  oldLength : Nat
  newStart : Nat
  newLength : Nat
  deriving DecidableEq, Repr

namespace HunkRange

def oldEnd (r : HunkRange) : Nat :=
  r.oldStart + r.oldLength

def newEnd (r : HunkRange) : Nat :=
  r.newStart + r.newLength

/-- The ends stay inside the 64-bit words. -/
def Fits (r : HunkRange) : Prop :=
  r.oldEnd < Text.wordLimit ∧ r.newEnd < Text.wordLimit

instance (r : HunkRange) : Decidable r.Fits :=
  inferInstanceAs (Decidable (_ ∧ _))

/-- The smallest range around two ranges, whether or not its ends are words. -/
def hull (r s : HunkRange) : HunkRange where
  oldStart := min r.oldStart s.oldStart
  oldLength := max r.oldEnd s.oldEnd - min r.oldStart s.oldStart
  newStart := min r.newStart s.newStart
  newLength := max r.newEnd s.newEnd - min r.newStart s.newStart

/-- The smallest range around two ranges; there is none when an end is no word. -/
def cover? (r s : HunkRange) : Option HunkRange :=
  if r.Fits ∧ s.Fits then some (r.hull s) else none

def print (r : HunkRange) : List Char :=
  '-' :: (Text.decimal r.oldStart ++ ',' :: Text.decimal r.oldLength) ++
    " +".toList ++ Text.decimal r.newStart ++ ',' :: Text.decimal r.newLength

def display (r : HunkRange) : String :=
  String.ofList r.print

/-- Reads a start and, behind a comma, a length; a missing length means one line. -/
def readSpan? (sign : Char) (cs : List Char) : Option (Nat × Nat) := do
  let body ← Text.after? [sign] cs
  match Text.cut? [','] body with
  | some (start, length) => return (← Text.readDecimal? start, ← Text.readDecimal? length)
  | none => return (← Text.readDecimal? body, 1)

/-- Reads a range: the old and the new span with blanks between them. -/
def read? (cs : List Char) : Option HunkRange :=
  match Text.words cs with
  | [old, new] => do
    let (oldStart, oldLength) ← readSpan? '-' old
    let (newStart, newLength) ← readSpan? '+' new
    return { oldStart, oldLength, newStart, newLength }
  | _ => none

/-- What is said of a text that is no range. -/
def invalidMessage (text : String) : String :=
  s!"invalid hunk range \"{text}\""

/-- The range of a hunk header, `@@ -a,b +c,d @@`; anything may follow the second mark. -/
def ofHeader? (line : List Char) : Option HunkRange := do
  let body ← Text.after? ['@', '@'] line
  let (range, _) ← Text.cut? ['@', '@'] body
  read? (Text.trim range)

theorem hull_comm (r s : HunkRange) : r.hull s = s.hull r := by
  simp [hull, Nat.min_comm, Nat.max_comm]

end HunkRange

end Variability
