/-!
Whole numbers in text. Numbers are read as 64-bit words: one plus sign may stand in front, at
least one digit follows, nothing else, and the value stays below `wordLimit`.
-/

namespace Variability.Text

/-- The first number that does not fit into a 64-bit word. -/
def wordLimit : Nat := 18446744073709551616

def digitValue? (base : Nat) (c : Char) : Option Nat :=
  let value? :=
    if '0' ≤ c && c ≤ '9' then some (c.toNat - '0'.toNat)
    else if 'a' ≤ c && c ≤ 'f' then some (c.toNat - 'a'.toNat + 10)
    else if 'A' ≤ c && c ≤ 'F' then some (c.toNat - 'A'.toNat + 10)
    else none
  value?.filter (· < base)

def readDigits? (base : Nat) : Nat → List Char → Option Nat
  | value, [] => some value
  | value, c :: cs =>
    match digitValue? base c with
    | none => none
    | some d => readDigits? base (value * base + d) cs

def readWord? (base : Nat) (cs : List Char) : Option Nat :=
  let digits :=
    match cs with
    | '+' :: rest => rest
    | _ => cs
  if digits.isEmpty then none
  else (readDigits? base 0 digits).filter (· < wordLimit)

def readDecimal? (cs : List Char) : Option Nat :=
  readWord? 10 cs

def decimal (n : Nat) : List Char :=
  Nat.toDigits 10 n

end Variability.Text
