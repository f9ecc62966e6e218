/-!
Sets of characters. A set is a list of ranges of code points in ascending order, with a gap between
any two; adding a range keeps it so. Membership looks at the ranges up to the character only.
-/

namespace Variability.Text

/-- A set of characters: the first and last code point of each range, in ascending order. -/
structure CharSet where
  ranges : List (Nat × Nat)
  deriving DecidableEq, Repr

namespace CharSet

/-- The last code point. -/
def maxCode : Nat := 0x10FFFF

def empty : CharSet :=
  ⟨[]⟩

def all : CharSet :=
  ⟨[(0, maxCode)]⟩

def ascii : CharSet :=
  ⟨[(0, 0x7F)]⟩

def ofRange (low high : Nat) : CharSet :=
  if low ≤ high then ⟨[(low, high)]⟩ else empty

def single (c : Char) : CharSet :=
  ofRange c.toNat c.toNat

def holds : List (Nat × Nat) → Nat → Bool
  | [], _ => false
  | (low, high) :: rest, n => low ≤ n && (n ≤ high || holds rest n)

def containsCode (s : CharSet) (n : Nat) : Bool :=
  holds s.ranges n

def contains (s : CharSet) (c : Char) : Bool :=
  s.containsCode c.toNat

/-- Adds a range to ascending ranges; ranges that it meets become one with it. -/
def insertRange (low high : Nat) : List (Nat × Nat) → List (Nat × Nat)
  | [] => [(low, high)]
  | (a, b) :: rest =>
    if high + 1 < a then (low, high) :: (a, b) :: rest
    else if b + 1 < low then (a, b) :: insertRange low high rest
    else insertRange (min low a) (max high b) rest

def addRange (s : CharSet) (low high : Nat) : CharSet :=
  if low ≤ high then ⟨insertRange low high s.ranges⟩ else s

def union (s t : CharSet) : CharSet :=
  t.ranges.foldl (fun s (low, high) => s.addRange low high) s

def gapsFrom (start : Nat) : List (Nat × Nat) → List (Nat × Nat)
  | [] => if start ≤ maxCode then [(start, maxCode)] else []
  | (low, high) :: rest =>
    if start < low then (start, low - 1) :: gapsFrom (high + 1) rest
    else gapsFrom (high + 1) rest

def complement (s : CharSet) : CharSet :=
  ⟨gapsFrom 0 s.ranges⟩

def inter (s t : CharSet) : CharSet :=
  (s.complement.union t.complement).complement

def diff (s t : CharSet) : CharSet :=
  s.inter t.complement

def symmDiff (s t : CharSet) : CharSet :=
  (s.diff t).union (t.diff s)

def isAscii (s : CharSet) : Bool :=
  s.ranges.all fun (_, high) => high ≤ 0x7F

@[simp] theorem contains_empty (c : Char) : empty.contains c = false := rfl

theorem contains_single (c d : Char) : (single c).contains d ↔ c = d := by
  simp only [contains, containsCode, single, ofRange, Nat.le_refl, if_true, holds, Bool.or_false,
    Bool.and_eq_true, decide_eq_true_eq]
  constructor
  · intro h
    exact Char.toNat_inj.mp (Nat.le_antisymm h.1 h.2)
  · rintro rfl
    exact ⟨Nat.le_refl _, Nat.le_refl _⟩

end CharSet

end Variability.Text
