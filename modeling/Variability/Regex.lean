import Variability.Text.CharSet
import Variability.Text.WordChar

/-!
Regular expressions over characters. Positions in a text are counted from its start, and `ends`
gives every position at which a match that starts at one of several positions can end. So all
ways to match are followed at once, and nothing depends on an order among them.
-/

namespace Variability

namespace Regex

inductive WordPlace where
  | boundary
  | noBoundary
  | start
  | stop
  /-- No word character stands before. -/
  | startHalf
  /-- No word character stands behind. -/
  | stopHalf
  deriving DecidableEq, Repr

/-- What a place in a text can be asked for. With `crlf` a carriage return ends a line too, and with
a line feed behind it the two end it together. -/
inductive Look where
  | textStart
  | textStop
  | lineStart (crlf : Bool)
  | lineStop (crlf : Bool)
  /-- Words are those of the basic alphabet or of all scripts. -/
  | word (place : WordPlace) (ascii : Bool)
  deriving DecidableEq, Repr

end Regex

inductive Regex where
  | empty
  | char (set : Text.CharSet)
  | look (look : Regex.Look)
  | seq (first second : Regex)
  | alt (left right : Regex)
  /-- At least `least` times, and at most `most` times if that is given. -/
  | times (body : Regex) (least : Nat) (most : Option Nat)
  /-- A part whose text could be asked for. -/
  | capture (body : Regex)
  deriving DecidableEq, Repr

namespace Regex

def isBasicWordChar (c : Char) : Bool :=
  c.isAlphanum || c = '_'

/-- Whether a place lies as asked, when word characters stand before and behind or do not. -/
def WordPlace.holds (place : WordPlace) (before behind : Bool) : Bool :=
  match place with
  | boundary => before != behind
  | noBoundary => before == behind
  | start => !before && behind
  | stop => before && !behind
  | startHalf => !before
  | stopHalf => !behind

/-- Whether a place is as asked, by the characters before and behind it. -/
def Look.holds (look : Look) (before behind : Option Char) : Bool :=
  match look with
  | textStart => before.isNone
  | textStop => behind.isNone
  | lineStart false => before.all (· = '\n')
  | lineStart true =>
    before.all fun c => c = '\n' || (c = '\r' && behind ≠ some '\n')
  | lineStop false => behind.all (· = '\n')
  | lineStop true =>
    behind.all fun c => c = '\r' || (c = '\n' && before ≠ some '\r')
  | word place ascii =>
    let isWord := if ascii then isBasicWordChar else Text.isWordChar
    place.holds (before.any isWord) (behind.any isWord)

def before? (text : Array Char) (i : Nat) : Option Char :=
  if i = 0 then none else text[i - 1]?

def join (is js : List Nat) : List Nat :=
  is ++ js.filter fun j => !is.contains j

/-- Takes a step `count` times; nothing changes any more once it leads to the same positions. -/
def steps (step : List Nat → List Nat) : (count : Nat) → List Nat → List Nat
  | 0, is => is
  | count + 1, is => if step is = is then is else steps step count (step is)

/-- Takes a step at most `count` times from the positions `front`; `seen` holds all that were
reached, and only new ones are followed. -/
def reach (step : List Nat → List Nat) : (count : Nat) → (seen front : List Nat) → List Nat
  | 0, seen, _ => seen
  | count + 1, seen, front =>
    let fresh := (step front).filter fun i => !seen.contains i
    if fresh.isEmpty then seen else reach step count (fresh ++ seen) fresh

/-- The positions behind a match that starts at one of the given positions. More rounds of a
repetition than the text has characters lead nowhere else than one round more than that. -/
def ends (text : Array Char) : Regex → List Nat → List Nat
  | empty, is => is
  | char set, is => (is.filter fun i => text[i]?.any set.contains).map (· + 1)
  | look l, is => is.filter fun i => l.holds (before? text i) text[i]?
  | seq r s, is => s.ends text (r.ends text is)
  | alt r s, is => join (r.ends text is) (s.ends text is)
  | times r least most, is =>
    let enough := text.size + 1
    let first := steps (r.ends text) (min least enough) is
    reach (r.ends text) (most.elim enough fun most => min (most - least) enough) first first
  | capture r, is => r.ends text is

def matchesIn (r : Regex) (text : List Char) : Bool :=
  !(r.ends text.toArray (List.range (text.length + 1))).isEmpty

end Regex

end Variability
