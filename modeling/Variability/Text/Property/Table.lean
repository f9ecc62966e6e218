import Variability.Text.CharSet

/-!
Tables of character properties. A table is a row of numbers, written in a base of sixteen with
letters and digits alone: a number ends with a digit from `0` to `f`, and the digits before it are
written `g` to `v`. The numbers are either pairs of a length and a value, which cover all characters
in order, or distances between the points where a property begins and ends.
-/

namespace Variability.Text.Property

def digitValue (c : Char) : Nat × Bool :=
  if c.isDigit then (c.toNat - '0'.toNat, true)
  else if c.toNat < 'g'.toNat then (c.toNat - 'a'.toNat + 10, true)
  else (c.toNat - 'g'.toNat, false)

/-- The numbers of a row; `high` is what the digits before amount to. -/
def readNumbers (high : Nat) : List Char → List Nat
  | [] => []
  | c :: cs =>
    match digitValue c with
    | (value, true) => (16 * high + value) :: readNumbers 0 cs
    | (value, false) => readNumbers (16 * high + value) cs

def numbers (table : List String) : List Nat :=
  readNumbers 0 (table.flatMap String.toList)

/-- The ranges of the runs whose value is wanted, when the first run begins at `start`. -/
def rangesOfRuns (wanted : Nat → Bool) (start : Nat) : List Nat → List (Nat × Nat)
  | length :: value :: rest =>
    let more := rangesOfRuns wanted (start + length) rest
    if wanted value && 0 < length then (start, start + length - 1) :: more else more
  | _ => []

def ofRuns (table : List String) (wanted : Nat → Bool) : CharSet :=
  (rangesOfRuns wanted 0 (numbers table)).foldr (fun (low, high) s => s.addRange low high) .empty

/-- The ranges between points where a property begins and ends, counted from `start`. -/
def rangesOfChanges (start : Nat) : List Nat → List (Nat × Nat)
  | gap :: length :: rest =>
    (start + gap, start + gap + length - 1) :: rangesOfChanges (start + gap + length) rest
  | _ => []

def ofChanges (table : List String) : CharSet :=
  ⟨rangesOfChanges 0 (numbers table)⟩

end Variability.Text.Property
