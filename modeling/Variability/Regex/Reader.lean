import Variability.Regex.Bracket
import Variability.Text.Property

/-!
Reading regular expressions. The syntax has literals, places, escapes, classes in brackets, groups
with and without a name or flags, alternatives, and the repetitions `*`, `+`, `?` and counts in
braces, each also with a `?` behind it, which says nothing about whether there is a match. Groups
that are open are kept in a list, the innermost first.
-/

namespace Variability.Regex

open Reader

def countLimit : Nat := 4294967296

def readCount : Reader Nat := do
  let _ ← takeWhile Text.isBlank
  let start ← position
  let digits ← takeWhile Char.isDigit
  let span ← since start
  let _ ← takeWhile Text.isBlank
  let value := digits.foldl (fun n d => 10 * n + (d.toNat - '0'.toNat)) 0
  if digits.isEmpty then fail .countEmpty span
  else if value ≥ countLimit then fail .countTooLarge span
  else return value

/-- Goes behind the mark that asks for few rather than many repetitions. -/
def skipLazy : Reader Unit := do
  let _ ← skipIf ['?']

/-- Reads the most that a count allows, when the least has been read; `start` is where its brace
stands. -/
def readMost (start least : Nat) : Reader (Option Nat) := do
  if (← peek?) = some ',' then
    skipOver
    unlessDone .countUnclosed start
    if (← peek?) = some '}' then return none else return some (← readCount)
  else return some least

/-- Reads the least and the most of a count up to its end; `start` is where its brace stands. -/
def readBounds (start : Nat) : Reader (Nat × Option Nat) := do
  unlessDone .countUnclosed start
  let least ← readCount
  unlessDone .countUnclosed start
  let most ← readMost start least
  return (least, most)

/-- Goes behind a count, and checks its bounds. -/
def closeCounts (start : Nat) (bounds : Nat × Option Nat) : Reader (Nat × Option Nat) := do
  if (← peek?) ≠ some '}' then fail .countUnclosed (← since start)
  else
    skipOver
    skipLazy
    if bounds.2.any (· < bounds.1) then fail .countInvalid (← since start) else return bounds

/-- Reads a count of repetitions, whose brace comes next: the least and the most. -/
def readCounts : Reader (Nat × Option Nat) := do
  let start ← position
  skipOver
  closeCounts start (← readBounds start)

/-- Reads a repetition of what was read before, whose sign comes next. -/
def readTimes (sign : Char) : Reader (Nat × Option Nat) := do
  if sign = '{' then readCounts
  else
    skip
    skipLazy
    match sign with
    | '*' => return (0, none)
    | '+' => return (1, none)
    | _ => return (0, some 1)

/-- A flag as it is written, or the sign that switches the flags behind it off. -/
structure FlagItem where
  span : Span
  flag : Option Flag

def changesOf : (on : Bool) → List FlagItem → FlagChanges
  | _, [] => []
  | _, ⟨_, none⟩ :: items => changesOf false items
  | on, ⟨_, some flag⟩ :: items => (flag, on) :: changesOf on items

/-- Reads flags up to a colon or a parenthesis, which is left to be read; `items` are those before,
the last one first. -/
def readFlags : (count : Nat) → (items : List FlagItem) → Reader FlagChanges
  | 0, _ => do fail .flagUnfinished (← since (← position))
  | count + 1, items => do
    let span ← nextSpan
    match ← peek? with
    | none => fail .flagUnfinished ⟨span.start, span.start⟩
    | some c =>
      if c = ':' || c = ')' then
        match items with
        | ⟨span, none⟩ :: _ => fail .flagDangling span
        | items => return changesOf true items.reverse
      else
        let flag := Flag.ofLetter? c
        if c ≠ '-' && flag.isNone then fail .flagUnknown span
        else
          match items.find? (·.flag = flag) with
          | some item =>
            let cause : Cause := if c = '-' then .flagNegatedTwice else .flagTwice
            throw ⟨cause, span, some item.span⟩
          | none =>
            skip
            readFlags count (⟨span, flag⟩ :: items)

def letters : Text.CharSet :=
  Text.Property.ofChanges Text.Property.alphabeticChanges

def numbers : Text.CharSet :=
  (Text.Property.ofName ['N']).toOption.getD .empty

def isNameChar (first : Bool) (c : Char) : Bool :=
  c = '_' || letters.contains c ||
    (!first && (c = '.' || c = '[' || c = ']' || numbers.contains c))

/-- Reads the characters of a group name up to the closing angle bracket, which is left to be
read. -/
def readNameChars : (count : Nat) → (first : Bool) → Reader (List Char)
  | 0, _ => do fail .nameUnclosed (← since (← position))
  | count + 1, first => do
    match ← peek? with
    | none => fail .nameUnclosed (← since (← position))
    | some '>' => return []
    | some c =>
      if isNameChar first c then
        skip
        return c :: (← readNameChars count false)
      else fail .nameInvalid (← nextSpan)

/-- Takes the name of a group, which no group before has. -/
def addName (name : List Char) (span : Span) : Reader Unit := do
  match (← get).names.lookup name with
  | some other => throw ⟨.nameTwice, span, some other⟩
  | none => modify fun s => { s with names := (name, span) :: s.names }

def readName : Reader Unit := do
  let start ← position
  let name ← readNameChars ((← get).rest.length + 1) true
  let span ← since start
  skip
  if name.isEmpty then fail .nameEmpty span else addName name span

inductive Opened where
  | group (kind : GroupKind)
  /-- Flags for what follows, with no group. -/
  | flags (changes : FlagChanges)

/-- Fails where a sign for looking around is read. -/
def refuseLookAround (start : Nat) : (signs : List String) → Reader Unit
  | [] => return ()
  | sign :: signs => do
    if ← skipIf sign.toList then fail .lookAround (← since start)
    else refuseLookAround start signs

/-- Reads flags and the sign behind them. They are for a group, or else for what follows. -/
def readFlagged (start inner : Nat) : Reader Opened := do
  if ← isDone then fail .groupUnclosed ⟨start, start + 1⟩
  else
    let changes ← readFlags ((← get).rest.length + 1) []
    let closed := (← peek?) = some ')'
    skip
    if !closed then return .group (.flags changes)
    else if changes.isEmpty then fail .repetitionMissing ⟨inner, inner⟩
    else return .flags changes

/-- Reads what tells the kind of a group, whose parenthesis stands at `start` and whose inside
begins at `inner`. -/
def readOpened (start inner : Nat) : Reader Opened := do
  if ← skipIf "?P<".toList <||> skipIf "?<".toList then
    readName
    return .group .capture
  else if ← skipIf ['?'] then readFlagged start inner
  else return .group .capture

def readParenthesis : Reader Opened := do
  let start ← position
  skip
  skipBlanks
  let inner ← position
  refuseLookAround start ["?=", "?!", "?<=", "?<!"]
  readOpened start inner

structure OpenGroup where
  /-- The parenthesis, what it opens, and whether blanks are ignored outside. -/
  opening : Option (Span × GroupKind × Bool)
  /-- Where the alternatives begin, and those that are finished, the last one first. -/
  start : Nat
  branches : List Expression
  /-- Where the alternative begins that is read, and its parts, the last one first. -/
  branchStart : Nat
  parts : List Expression

namespace OpenGroup

def ofOpening (opening : Option (Span × GroupKind × Bool)) (start : Nat) : OpenGroup :=
  ⟨opening, start, [], start, []⟩

def add (g : OpenGroup) (e : Expression) : OpenGroup :=
  { g with parts := e :: g.parts }

def branch (g : OpenGroup) (stop : Nat) : Expression :=
  match g.parts with
  | [] => .empty ⟨g.branchStart, stop⟩
  | [e] => e
  | parts => .sequence ⟨g.branchStart, stop⟩ parts.reverse

def nextBranch (g : OpenGroup) (bar : Nat) : OpenGroup :=
  { g with branches := g.branch bar :: g.branches, branchStart := bar + 1, parts := [] }

def body (g : OpenGroup) (stop : Nat) : Expression :=
  if g.branches.isEmpty then g.branch stop
  else .alternation ⟨g.start, stop⟩ (g.branch stop :: g.branches).reverse

end OpenGroup

def ignoresBlanks (changes : FlagChanges) (before : Bool) : Bool :=
  (changes.find? (·.1 = .ignoreBlanks)).elim before Prod.snd

def readPrimitive (c : Char) : Reader Expression := do
  if c = '\\' then readEscape
  else
    let span ← nextSpan
    skip
    match c with
    | '.' => return .dot span
    | '^' => return .assertion span .lineStart
    | '$' => return .assertion span .lineStop
    | c => return .literal ⟨span, c, false⟩

def isRepeatable : Expression → Bool
  | .empty _ | .flags .. => false
  | _ => true

/-- The groups that are open, the innermost one first. -/
structure OpenGroups where
  innermost : OpenGroup
  outer : List OpenGroup

def OpenGroups.add (g : OpenGroups) (e : Expression) : OpenGroups :=
  { g with innermost := g.innermost.add e }

/-- Opens a group, or takes flags for what follows; the parenthesis comes next. -/
def openGroup (g : OpenGroups) : Reader OpenGroups := do
  let start ← position
  let ignored := (← get).ignoreBlanks
  match ← readParenthesis with
  | .flags changes =>
    modify fun s => { s with ignoreBlanks := ignoresBlanks changes ignored }
    return g.add (.flags (← since start) changes)
  | .group kind =>
    let changes :=
      match kind with
      | .capture => []
      | .flags changes => changes
    modify fun s => { s with ignoreBlanks := ignoresBlanks changes ignored }
    let opening := some (⟨start, start + 1⟩, kind, ignored)
    return ⟨.ofOpening opening (← position), g.innermost :: g.outer⟩

/-- Closes the innermost group; the parenthesis comes next. -/
def closeGroup (g : OpenGroups) : Reader OpenGroups := do
  match g.innermost.opening, g.outer with
  | some (span, kind, ignored), next :: outer =>
    let body := g.innermost.body (← position)
    skip
    modify fun s => { s with ignoreBlanks := ignored }
    return ⟨next.add (.group (← since span.start) kind body), outer⟩
  | _, _ => fail .groupUnopened (← nextSpan)

/-- Repeats the part that was read last; the sign of the repetition comes next. -/
def repeatLast (sign : Char) (g : OpenGroups) : Reader OpenGroups := do
  let start ← position
  match g.innermost.parts with
  | [] => fail .repetitionMissing ⟨start, start⟩
  | last :: parts =>
    if isRepeatable last then
      let (least, most) ← readTimes sign
      let repeated : Expression := .repetition (← since last.span.start) last least most
      return { g with innermost := { g.innermost with parts := repeated :: parts } }
    else fail .repetitionMissing ⟨start, start⟩

/-- Reads what comes next, which begins with `c` and closes no group. -/
def readPart (c : Char) (g : OpenGroups) : Reader OpenGroups := do
  match c with
  | '(' => openGroup g
  | '|' =>
    let bar ← position
    skip
    return { g with innermost := g.innermost.nextBranch bar }
  | '[' => return g.add (.charClass (← readClass))
  | c =>
    if ['*', '+', '?', '{'].contains c then repeatLast c g
    else return g.add (← readPrimitive c)

/-- Reads an expression to its end. Every round reads a character, and `count` is the number of
rounds that are left. -/
def readParts : (count : Nat) → OpenGroups → Reader Expression
  | 0, _ => do fail .groupUnclosed (← since (← position))
  | count + 1, g => do
    skipBlanks
    match ← peek? with
    | none =>
      match g.innermost.opening with
      | some (span, _, _) => fail .groupUnclosed span
      | none => return g.innermost.body (← position)
    | some ')' => readParts count (← closeGroup g)
    | some c => readParts count (← readPart c g)

/-- Reads a whole text. What lies too deep is found when all else is right. -/
def Expression.read (text : List Char) : Except Problem Expression := do
  let (e, _) ← (readParts (text.length + 1) ⟨.ofOpening none 0, []⟩).run (.ofText text)
  match e.tooDeep? maxDepth with
  | some span => .error ⟨.nestedTooDeep, span, none⟩
  | none => return e

end Variability.Regex
