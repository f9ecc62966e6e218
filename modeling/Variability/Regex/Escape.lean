import Variability.Regex.Expression
import Variability.Regex.Scan
import Variability.Text.Cut

/-!
Reading escapes. Behind a backslash stands a character that is meant as such, a letter for a control
character, a class or a place, a code to the base of sixteen, or a property of characters.
-/

namespace Variability.Regex

open Reader

def isEscapable (c : Char) : Bool :=
  c.toNat < 0x80 && !c.isAlphanum && c != '<' && c != '>'

/-- Letters that stand for a control character behind a backslash. -/
def control? : Char → Option Char
  | 'a' => some '\x07'
  | 'f' => some '\x0c'
  | 'n' => some '\n'
  | 'r' => some '\r'
  | 't' => some '\t'
  | 'v' => some '\x0b'
  | _ => none

def assertion? : Char → Option Assertion
  | 'A' => some .textStart
  | 'z' => some .textStop
  | 'b' => some (.word .boundary)
  | 'B' => some (.word .noBoundary)
  | '<' => some (.word .start)
  | '>' => some (.word .stop)
  | _ => none

/-- Letters that stand for a class, or for all that is not in it. -/
def shorthand? : Char → Option (Bool × Shorthand)
  | 'd' => some (false, .digit)
  | 'D' => some (true, .digit)
  | 's' => some (false, .blank)
  | 'S' => some (true, .blank)
  | 'w' => some (false, .word)
  | 'W' => some (true, .word)
  | _ => none

def wordPlace? (name : String) : Option WordPlace :=
  [("start", .start), ("end", .stop), ("start-half", WordPlace.startHalf),
    ("end-half", .stopHalf)].lookup name

def hexValue? (c : Char) : Option Nat :=
  if c.isDigit then some (c.toNat - '0'.toNat)
  else if 'a' ≤ c && c ≤ 'f' then some (c.toNat - 'a'.toNat + 10)
  else if 'A' ≤ c && c ≤ 'F' then some (c.toNat - 'A'.toNat + 10)
  else none

def charOfDigits? (digits : List Nat) : Option Char :=
  let code := digits.foldl (fun n d => 16 * n + d) 0
  if code.isValidChar then some (Char.ofNat code) else none

def hexLength : Char → Nat
  | 'x' => 2
  | 'u' => 4
  | _ => 8

def readHexDigit : Reader Nat := do
  match ← peek? with
  | none => fail .escapeUnfinished (← since (← position))
  | some c =>
    match hexValue? c with
    | none => fail .hexDigitInvalid (← nextSpan)
    | some value =>
      skipOver
      return value

/-- Reads the digits of a code up to the closing brace, which is left to be read. -/
def readHexToBrace (brace : Nat) : (count : Nat) → Reader (List Nat)
  | 0 => do fail .escapeUnfinished (← since brace)
  | count + 1 => do
    match ← peek? with
    | none => fail .escapeUnfinished (← since brace)
    | some '}' => return []
    | some _ => return (← readHexDigit) :: (← readHexToBrace brace count)

/-- Reads a code in braces, whose opening brace comes next; `start` is where its backslash
stands. -/
def readCodeInBraces (start : Nat) : Reader Expression := do
  let brace ← position
  skipOver
  let digits ← readHexToBrace brace ((← get).rest.length + 1)
  let stop ← position
  skipOver
  if digits.isEmpty then fail .hexEmpty (← since brace)
  else
    match charOfDigits? digits with
    | none => fail .hexInvalid ⟨brace + 1, stop⟩
    | some c => return .literal ⟨← since start, c, false⟩

/-- Reads as many digits of a code as its letter tells, when the letter has been read. -/
def readCode (start : Nat) (letter : Char) : Reader Expression := do
  let first ← position
  let digits ← (List.replicate (hexLength letter) ()).mapM fun () => readHexDigit
  match charOfDigits? digits with
  | none => fail .hexInvalid (← since first)
  | some c => return .literal ⟨← since start, c, letter = 'x'⟩

/-- Reads a code; `start` is where its backslash stands, and its letter comes next. -/
def readHex (start : Nat) (letter : Char) : Reader Expression := do
  skipOver
  if (← peek?) = some '{' then readCodeInBraces start else readCode start letter

def PropertyQuery.ofText (text : List Char) : PropertyQuery :=
  let asked := (Text.cut? ['!', '='] text <|> Text.cut? [':'] text) <|> Text.cut? ['='] text
  asked.elim (.name text) fun (property, wanted) => .value property wanted

/-- Reads a property; `start` is where its backslash stands, and its letter comes next. -/
def readProperty (start : Nat) (negated : Bool) : Reader Expression := do
  skipOver
  match ← peek? with
  | none => fail .escapeUnfinished (← since (← position))
  | some '\\' => fail .propertyInvalid (← nextSpan)
  | some '{' =>
    skipOver
    let text ← takeWhile (· ≠ '}')
    if ← isDone then fail .escapeUnfinished (← since (← position))
    else
      skip
      return .charClass (.property (← since start) negated (.ofText text))
  | some c =>
    skipOver
    return .charClass (.property (← since start) negated (.name [c]))

def isPlaceChar (c : Char) : Bool :=
  c.isAlpha || c = '-'

/-- Reads the name of a place and the brace behind it; `brace` is where the opening one stands. -/
def readPlaceName (brace : Nat) : Reader WordPlace := do
  let first ← position
  let name ← takeWhile isPlaceChar
  if (← peek?) ≠ some '}' then fail .wordPlaceUnclosed (← since brace)
  else
    let span ← since first
    skip
    match wordPlace? (String.ofList name) with
    | none => fail .wordPlaceUnknown span
    | some place => return place

/-- Reads the name of a place in braces. Braces that begin with anything but a name are left for a
count of repetitions. -/
def readWordPlace? (start : Nat) : Reader (Option WordPlace) := do
  let brace ← get
  skipOver
  if ← isDone then fail .wordPlaceUnfinished (← since start)
  else if (← peek?).all fun c => !isPlaceChar c then
    set brace
    return none
  else return some (← readPlaceName brace.position)

def readAssertion (start : Nat) (a : Assertion) : Reader Expression := do
  let span ← since start
  if a = .word .boundary && (← peek?) = some '{' then
    match ← readWordPlace? start with
    | none => return .assertion span a
    | some place => return .assertion (← since start) (.word place)
  else return .assertion span a

def readEscape : Reader Expression := do
  let start ← position
  skip
  match ← peek? with
  | none => fail .escapeUnfinished (← since start)
  | some c =>
    if c.isDigit then fail .backreference ⟨start, (← position) + 1⟩
    else if c = 'x' || c = 'u' || c = 'U' then readHex start c
    else if c = 'p' || c = 'P' then readProperty start (c = 'P')
    else
      skip
      let span ← since start
      match shorthand? c, assertion? c, control? c with
      | some (negated, kind), _, _ => return .charClass (.shorthand span negated kind)
      | none, some a, _ => readAssertion start a
      | none, none, some control => return .literal ⟨span, control, false⟩
      | none, none, none =>
        if isEscapable c then return .literal ⟨span, c, false⟩ else fail .escapeUnknown span

end Variability.Regex
