import Variability.Formula

/-!
Satisfiability and what is asked of it. An oracle decides whether a formula has a model, or gives
up; equivalence and implication are questions about models of a combined formula. The bundled
oracle goes through the truth table of a formula and gives up on formulas with too many features.
A row of the table is a word whose bits are the values of the features, in ascending order.
-/

namespace Variability

namespace TruthTable

/-- The place of a name in an ascending array, sought by halving the range from `low` to `high`. -/
def placeBetween? (xs : Array String) (x : String) (low high : Nat) (inside : high ≤ xs.size) :
    Option Nat :=
  if range : low < high then
    let middle := low + (high - low) / 2
    have : middle < xs.size := by omega
    if xs[middle] < x then placeBetween? xs x (middle + 1) high inside
    else if xs[middle] = x then some middle
    else placeBetween? xs x low middle (by omega)
  else none
termination_by high - low

def place? (xs : Array String) (x : String) : Option Nat :=
  placeBetween? xs x 0 xs.size (Nat.le_refl _)

def bit (place : Nat) : UInt64 :=
  1 <<< place.toUInt64

/-- The value of a feature in a row. What is not listed is false. -/
def value (xs : Array String) (row : UInt64) (x : String) : Bool :=
  (place? xs x).any fun place => row &&& bit place != 0

theorem toNat_next {total row : UInt64} (below : row < total) :
    (row + 1).toNat = row.toNat + 1 := by
  have less := UInt64.lt_iff_toNat_lt.mp below
  have word := total.toNat_lt
  rw [UInt64.toNat_add, UInt64.toNat_one, Nat.mod_eq_of_lt (by omega)]

/-- Whether some row from `row` to below `total` makes a formula true. -/
def anyRow (f : Formula) (xs : Array String) (total row : UInt64) : Bool :=
  if row < total then f.eval (value xs row) || anyRow f xs total (row + 1) else false
termination_by total.toNat - row.toNat
decreasing_by
  have below : row < total := by assumption
  have less := UInt64.lt_iff_toNat_lt.mp below
  rw [toNat_next below]
  omega

/-- A table of `n` features has `2 ^ n` rows. -/
def satisfiable (f : Formula) (xs : Array String) : Bool :=
  anyRow f xs (bit xs.size) 0

end TruthTable

/-- Why an oracle gave up. -/
inductive OracleError where
  | tooManyVariables (found limit : Nat)
  | engine (message : String)
  deriving DecidableEq, Repr

def OracleError.message : OracleError → String
  | tooManyVariables found limit =>
    s!"formula has {found} feature literals, oracle limit is {limit}"
  | engine message => s!"satisfiability engine failed: {message}"

structure Oracle where
  satisfiable : Formula → Except OracleError Bool

namespace Oracle

/-- The largest number of features that the bundled oracle accepts unless told otherwise. -/
def defaultMaxVariables : Nat := 16

/-- Decides formulas of at most `maxVariables` features, and of fewer than 64 in any case: the
rows of a larger table are no words. -/
def bounded (maxVariables : Nat) : Oracle where
  satisfiable f :=
    let xs := f.features.toArray
    if xs.size > maxVariables || xs.size ≥ 64 then
      .error (.tooManyVariables xs.size maxVariables)
    else
      .ok (TruthTable.satisfiable f xs)

/-- Formulas are equivalent when no assignment tells them apart. Equal formulas need no query. -/
def equivalent (o : Oracle) (f g : Formula) : Except OracleError Bool :=
  if f = g then .ok true else (o.satisfiable (f.xor g)).map (!·)

/-- A formula implies another when no assignment satisfies the first and not the second. Equal
formulas need no query. -/
def implies (o : Oracle) (f g : Formula) : Except OracleError Bool :=
  if f = g then .ok true else (o.satisfiable (.conj [f, .neg g])).map (!·)

end Oracle

end Variability
