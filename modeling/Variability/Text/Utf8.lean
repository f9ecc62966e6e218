/-!
Reading UTF-8. The first byte of a character tells how many bytes follow it and, so that every
character has one form and no surrogate is a character, between which bounds the next one lies. A
text that is no UTF-8 is refused with the offset of the first character that cannot be read.
-/

namespace Variability.Text.Utf8

/-- A character of which some bytes are read: how many are to come, between which bounds the next
lies, and the value so far. -/
structure Partial where
  left : Nat
  low : Nat
  high : Nat
  value : Nat
  deriving DecidableEq, Repr

inductive Step where
  | complete (c : Char)
  | unfinished (p : Partial)
  | invalid
  deriving DecidableEq, Repr

def Step.more (left low high value : Nat) : Step :=
  .unfinished ⟨left, low, high, value⟩

def first (b : Nat) : Step :=
  if b < 0x80 then .complete (.ofNat b)
  else if b < 0xC2 then .invalid
  else if b < 0xE0 then .more 1 0x80 0xBF (b - 0xC0)
  else if b = 0xE0 then .more 2 0xA0 0xBF 0
  else if b = 0xED then .more 2 0x80 0x9F 0xD
  else if b < 0xF0 then .more 2 0x80 0xBF (b - 0xE0)
  else if b = 0xF0 then .more 3 0x90 0xBF 0
  else if b < 0xF4 then .more 3 0x80 0xBF (b - 0xF0)
  else if b = 0xF4 then .more 3 0x80 0x8F 4
  else .invalid

def next (p : Partial) (b : Nat) : Step :=
  let value := 64 * p.value + (b - 0x80)
  if b < p.low || p.high < b then .invalid
  else if p.left ≤ 1 then .complete (.ofNat value)
  else .more (p.left - 1) 0x80 0xBF value

/-- Reads bytes from `offset` on, behind characters already read, the last of which comes first.
The character that is open started at `start`. -/
def decodeFrom (done : List Char) (start offset : Nat) :
    Option Partial → List UInt8 → Except Nat (List Char)
  | none, [] => .ok done.reverse
  | some _, [] => .error start
  | p?, b :: bs =>
    match p?.elim (first b.toNat) fun p => next p b.toNat with
    | .complete c => decodeFrom (c :: done) (offset + 1) (offset + 1) none bs
    | .unfinished p => decodeFrom done start (offset + 1) (some p) bs
    | .invalid => .error start

/-- The characters of a text, or the offset of the first that cannot be read. -/
def decode (bytes : List UInt8) : Except Nat (List Char) :=
  decodeFrom [] 0 0 none bytes

end Variability.Text.Utf8
