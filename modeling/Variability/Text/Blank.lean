/-!
Blank characters and the cutting of text at them. A character is blank when it has the Unicode
property White_Space; text is cut only at blanks in that sense, never at the ASCII blanks alone.
-/

namespace Variability.Text

/-- The ranges of the Unicode property White_Space, first and last code point of each. -/
def blankRanges : List (Nat × Nat) :=
  [(0x9, 0xD), (0x20, 0x20), (0x85, 0x85), (0xA0, 0xA0), (0x1680, 0x1680), (0x2000, 0x200A),
    (0x2028, 0x2029), (0x202F, 0x202F), (0x205F, 0x205F), (0x3000, 0x3000)]

def isBlank (c : Char) : Bool :=
  blankRanges.any fun (low, high) => low ≤ c.toNat && c.toNat ≤ high

def trimStart (cs : List Char) : List Char :=
  cs.dropWhile isBlank

def trimEnd (cs : List Char) : List Char :=
  (cs.reverse.dropWhile isBlank).reverse

def trim (cs : List Char) : List Char :=
  trimEnd (trimStart cs)

def words (cs : List Char) : List (List Char) :=
  (cs.foldr
    (fun c runs =>
      if isBlank c then [] :: runs
      else
        match runs with
        | [] => [[c]]
        | run :: rest => (c :: run) :: rest)
    [[]]).filter fun run => !run.isEmpty

@[simp] theorem words_nil : words [] = [] := rfl

end Variability.Text
