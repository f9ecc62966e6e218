import Variability.Regex.Problem
import Variability.Text.Blank

/-!
Going through the text of a regular expression. A scan knows what is left and how many characters
lie behind. Where blanks are ignored, they and comments are skipped between the parts of an
expression, and also inside escapes and counts.
-/

namespace Variability.Regex

structure Scan where
  rest : List Char
  position : Nat
  ignoreBlanks : Bool
  /-- The names of groups so far. -/
  names : List (List Char × Span)
  deriving Repr

namespace Scan

def ofText (text : List Char) : Scan :=
  ⟨text, 0, false, []⟩

/-- The number of characters of blanks and comments at the start of a text. -/
def blankLength : (inComment : Bool) → List Char → Nat
  | _, [] => 0
  | true, c :: cs => blankLength (c ≠ '\n') cs + 1
  | false, c :: cs =>
    if Text.isBlank c then blankLength false cs + 1
    else if c = '#' then blankLength true cs + 1
    else 0

def advance (s : Scan) (n : Nat) : Scan :=
  { s with rest := s.rest.drop n, position := s.position + min n s.rest.length }

def skipBlanks (s : Scan) : Scan :=
  if s.ignoreBlanks then s.advance (blankLength false s.rest) else s

/-- What stands behind blanks. Of several comments only the sign of the first is left out. -/
def behindBlanks (text : List Char) : List Char :=
  match Text.trimStart text with
  | '#' :: cs => Text.trimStart cs
  | cs => cs

/-- The character behind the next one and behind the blanks that are ignored there. -/
def peekBehind? (s : Scan) : Option Char :=
  let text := s.rest.drop 1
  if s.ignoreBlanks then (behindBlanks text).head? <|> text.head? else text.head?

end Scan

abbrev Reader := StateT Scan (Except Problem)

namespace Reader

variable {α : Type}

def fail (cause : Cause) (span : Span) : Reader α :=
  throw ⟨cause, span, none⟩

def position : Reader Nat :=
  return (← get).position

def since (start : Nat) : Reader Span :=
  return ⟨start, ← position⟩

def nextSpan : Reader Span :=
  return ⟨← position, (← position) + 1⟩

def peek? : Reader (Option Char) :=
  return (← get).rest.head?

def isDone : Reader Bool :=
  return (← get).rest.isEmpty

/-- Fails at the end of the text, on account of what was read since `start`. -/
def unlessDone (cause : Cause) (start : Nat) : Reader Unit := do
  if ← isDone then fail cause (← since start)

def skip : Reader Unit :=
  modify (·.advance 1)

def skipBlanks : Reader Unit :=
  modify Scan.skipBlanks

/-- Goes behind the next character and behind the blanks that are ignored there. -/
def skipOver : Reader Unit :=
  modify fun s => (s.advance 1).skipBlanks

def skipIf (text : List Char) : Reader Bool := do
  let s ← get
  if text.isPrefixOf s.rest then
    set (s.advance text.length)
    return true
  else return false

/-- The next characters as far as they are accepted, at most `count`. -/
def takeUpTo (accept : Char → Bool) : (count : Nat) → Reader (List Char)
  | 0 => return []
  | count + 1 => do
    match ← peek? with
    | none => return []
    | some c =>
      if accept c then
        skipOver
        return c :: (← takeUpTo accept count)
      else return []

def takeWhile (accept : Char → Bool) : Reader (List Char) := do
  takeUpTo accept (← get).rest.length

end Reader

end Variability.Regex
