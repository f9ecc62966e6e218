import Variability.Text.CharSet

/-!
Ranges of octets. The UTF-8 forms of a set of characters are written as rows of octet ranges: a row
stands for all forms that take an octet from each of its ranges.
-/

namespace Variability.Text.Utf8

abbrev Row := List (Nat × Nat)

def octetsOf (n : Nat) : List Nat :=
  if n < 0x80 then [n]
  else if n < 0x800 then [0xC0 + n / 64, 0x80 + n % 64]
  else if n < 0x10000 then [0xE0 + n / 4096, 0x80 + n / 64 % 64, 0x80 + n % 64]
  else [0xF0 + n / 262144, 0x80 + n / 4096 % 64, 0x80 + n / 64 % 64, 0x80 + n % 64]

/-- Where a range of code points has to be cut, behind the given code point, before its forms make
one row: between forms of different lengths, and where a leading octet changes while the octets
behind it do not run from their first value to their last. -/
def cut? (low high : Nat) : Option Nat :=
  let lengths := [0x7F, 0x7FF, 0xFFFF].find? fun m => low ≤ m && m < high
  let ends := [64, 4096, 262144].findSome? fun p =>
    if high ≤ 0x7F || low / p = high / p then none
    else if low % p ≠ 0 then some (low / p * p + p - 1)
    else if high % p ≠ p - 1 then some (high / p * p - 1)
    else none
  lengths <|> ends

/-- The rows of a range of code points. Halves of surrogate pairs have no form. -/
def rowsOfRange : (fuel : Nat) → (low high : Nat) → List Row
  | 0, _, _ => []
  | fuel + 1, low, high =>
    if high < low then []
    else if low < 0xE000 && 0xD7FF < high then
      rowsOfRange fuel low 0xD7FF ++ rowsOfRange fuel 0xE000 high
    else
      match cut? low high with
      | some m => rowsOfRange fuel low m ++ rowsOfRange fuel (m + 1) high
      | none => [(octetsOf low).zip (octetsOf high)]

/-- The rows of a set, in the order of its characters. No range is cut more than a few times. -/
def rows (s : CharSet) : List Row :=
  s.ranges.flatMap fun (low, high) => rowsOfRange 32 low high

def commonLength : Row → Row → Nat
  | a :: as, b :: bs => if a = b then commonLength as bs + 1 else 0
  | _, _ => 0

/-- The number of ranges in rows, those counted once that neighbours have in common. -/
def edgeCount : List Row → Nat
  | [] => 0
  | [row] => row.length
  | row :: next :: rows => row.length - commonLength row next + edgeCount (next :: rows)

def followers (rows : List Row) : List (List Row) :=
  (rows.splitBy fun a b => a.head? = b.head?).map fun group => group.map (·.drop 1)

/-- The rows that can be left while rows are followed, at most `depth` ranges far. -/
def remainders : (depth : Nat) → List (List Row) → List (List Row)
  | 0, _ => []
  | depth + 1, nodes =>
    let nodes := (nodes.filter fun rows => rows.any fun row => !row.isEmpty).eraseDups
    nodes ++ remainders depth (nodes.flatMap followers)

end Variability.Text.Utf8
