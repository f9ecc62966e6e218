import Variability.Regex
import Variability.Text.Utf8Ranges

/-!
How much room a regular expression takes as a machine over octets. Each octet, place and fork is a
state of the machine; repetitions with counts are written out, so that large counts take much room.
The machine that runs forward keeps the captures, the one that runs backward does not.
-/

namespace Variability.Regex

open Text (CharSet)

def sizeLimit : Nat := 10485760

/-- The size of a state, of a way out of a state by octets, and of one without. -/
def stateSize : Nat := 32

def edgeSize : Nat := 8

def linkSize : Nat := 4

inductive Direction where
  | forward
  | backward
  deriving DecidableEq, Repr

/-- The size of a set of characters. A machine that runs forward shares what can follow, the other
one what can stand before. -/
def setSize (d : Direction) (s : CharSet) : Nat :=
  match s.ranges with
  | [(low, high)] =>
    if low = high then stateSize * (Text.Utf8.octetsOf low).length else rangesSize
  | _ => rangesSize
where
  rangesSize : Nat :=
    if s.isAscii then 2 * stateSize + edgeSize * s.ranges.length
    else
      let rows := Text.Utf8.rows s
      match d with
      | .forward =>
        let nodes := (Text.Utf8.remainders 4 [rows]).eraseDups
        nodes.foldl (fun n node => n + stateSize + edgeSize * (Text.Utf8.followers node).length)
          stateSize
      | .backward =>
        2 * stateSize + stateSize * Text.Utf8.edgeCount rows + linkSize * rows.length

def charSet? : Regex → Option CharSet
  | char s => some s
  | alt r s => do return (← r.charSet?).union (← s.charSet?)
  | empty | look _ | seq .. | times .. | capture _ => none

def hasNoWidth : Regex → Bool
  | empty | look _ => true
  | char _ => false
  | seq r s | alt r s => r.hasNoWidth && s.hasNoWidth
  | times r _ most => r.hasNoWidth || most = some 0
  | capture r => r.hasNoWidth

/-- Whether an expression could match the empty text, as far as its form tells. -/
def isNullable : Regex → Bool
  | empty | look _ => true
  | char _ => false
  | seq r s => r.isNullable && s.isNullable
  | alt r s => r.isNullable || s.isNullable
  | times r least _ => least = 0 || r.isNullable
  | capture r => r.isNullable

def timesSize (nullable : Bool) (body least : Nat) (most : Option Nat) : Nat :=
  let fork := stateSize + 2 * linkSize
  let copies (n : Nat) : Nat := if n = 0 then stateSize else n * body
  match most with
  | none =>
    if least = 0 then
      if nullable then body + 2 * fork + stateSize else body + fork
    else least * body + fork
  | some most =>
    if least = 0 && most = 1 then body + fork + stateSize
    else if least = most then copies least
    else copies least + stateSize + (most - least) * (body + fork)

def branchedSize (total branches : Nat) : Nat :=
  if branches ≤ 1 then total else total + 2 * stateSize + linkSize * branches

/-- The sizes of the alternatives of an expression together, and their number. -/
def branchSizes (d : Direction) : Regex → Nat × Nat
  | empty => (stateSize, 1)
  | char s => (setSize d s, 1)
  | look _ => (stateSize, 1)
  | seq r s =>
    let part (r : Regex) (sizes : Nat × Nat) : Nat :=
      if r = empty then 0 else branchedSize sizes.1 sizes.2
    (part r (r.branchSizes d) + part s (s.branchSizes d), 1)
  | alt r s =>
    match (alt r s).charSet? with
    | some set => (setSize d set, 1)
    | none =>
      let (m, j) := r.branchSizes d
      let (n, k) := s.branchSizes d
      (m + n, j + k)
  | times r least most =>
    let (total, branches) := r.branchSizes d
    let body := branchedSize total branches
    let least := if r.hasNoWidth then min least 1 else least
    let most := if r.hasNoWidth then some (min (most.getD 1) 1) else most
    if most = some 0 then (stateSize, 1)
    else if least = 1 && most = some 1 then (total, branches)
    else (timesSize r.isNullable body least most, 1)
  | capture r =>
    let (total, branches) := r.branchSizes d
    match d with
    | .forward => (branchedSize total branches + 2 * stateSize, 1)
    | .backward => (branchedSize total branches, 1)

/-- The size of an expression as a whole, with the states around it. -/
def footprint (d : Direction) (r : Regex) : Nat :=
  let (total, branches) := r.branchSizes d
  let around :=
    match d with
    | .forward => 4 * stateSize
    | .backward => 2 * stateSize
  branchedSize total branches + around

def fits (r : Regex) : Bool :=
  r.footprint .forward ≤ sizeLimit && r.footprint .backward ≤ sizeLimit

end Variability.Regex
