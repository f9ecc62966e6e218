import Variability.Regex.Escape

/-!
Reading classes in brackets. A class has characters, ranges, escapes, named classes and other
classes in brackets side by side, and operations on sets of these, which group from the left.
Classes that are open are kept in a list, the innermost first.
-/

namespace Variability.Regex

open Reader

def namedClasses : List (String × NamedClass) :=
  [("alnum", .alnum), ("alpha", .alpha), ("ascii", .ascii), ("blank", .blank), ("cntrl", .cntrl),
    ("digit", .digit), ("graph", .graph), ("lower", .lower), ("print", .print), ("punct", .punct),
    ("space", .space), ("upper", .upper), ("word", .word), ("xdigit", .xdigit)]

/-- The named class whose name comes first in a text, with its end behind it, and the length of the
name. -/
def className? (text : List Char) : Option (NamedClass × Nat) :=
  if [':', ']'].isPrefixOf (text.dropWhile (· ≠ ':')) then
    let name := text.takeWhile (· ≠ ':')
    (namedClasses.lookup (String.ofList name)).map fun named => (named, name.length)
  else none

/-- The named class at the start of a text, whether it is negated, and its length. -/
def namedClass? (text : List Char) : Option (Bool × NamedClass × Nat) :=
  if ['[', ':', '^'].isPrefixOf text then
    (className? (text.drop 3)).map fun (named, n) => (true, named, n + 5)
  else if ['[', ':'].isPrefixOf text then
    (className? (text.drop 2)).map fun (named, n) => (false, named, n + 4)
  else none

/-- The members of a class so far, the last one first, and where they start. -/
structure Members where
  start : Nat
  members : List CharClass

namespace Members

def add (m : Members) (c : CharClass) : Members :=
  { m with members := c :: m.members }

def toClass (m : Members) : CharClass :=
  match m.members with
  | [] => .empty ⟨m.start, m.start⟩
  | [c] => c
  | last :: more =>
    let start := more.getLast?.elim m.start fun c => c.span.start
    .union ⟨start, last.span.stop⟩ (last :: more).reverse

end Members

structure OpenClass where
  /-- Its opening. -/
  span : Span
  negated : Bool
  /-- The members of the class around it. -/
  around : Members
  /-- What stands before the operation whose right side is read. -/
  left : Option (CharClass × SetOperation)

/-- The operation that is to be done in a class, done with the members as its right side. -/
def OpenClass.body (o : OpenClass) (m : Members) : CharClass :=
  match o.left with
  | none => m.toClass
  | some (left, operation) =>
    .operation ⟨left.span.start, m.toClass.span.stop⟩ operation left m.toClass

/-- Reads hyphens at the start of a class, which stand for themselves. -/
def readHyphens (bracket : Nat) : (count : Nat) → Members → Reader Members
  | 0, m => return m
  | count + 1, m => do
    if (← peek?) = some '-' then
      let hyphen : CharClass := .literal ⟨← nextSpan, '-', false⟩
      skipOver
      if ← isDone then fail .classUnclosed ⟨bracket, bracket⟩
      else readHyphens bracket count (m.add hyphen)
    else return m

/-- Reads the sign that negates a class, if it comes next. -/
def readNegation (bracket : Nat) : Reader Bool := do
  if (← peek?) = some '^' then
    skipOver
    unlessDone .classUnclosed bracket
    return true
  else return false

/-- Reads the members that stand for themselves at the start of a class only: hyphens, or else a
bracket that would close it at once. -/
def readFirstMembers (bracket : Nat) : Reader Members := do
  let members ← readHyphens bracket (← get).rest.length ⟨← position, []⟩
  if members.members.isEmpty && (← peek?) = some ']' then
    let closing : CharClass := .literal ⟨← nextSpan, ']', false⟩
    skipOver
    unlessDone .classUnclosed bracket
    return members.add closing
  else return members

/-- Reads the opening of a class up to the members that it can begin with. -/
def readOpening (around : Members) : Reader (OpenClass × Members) := do
  let start ← position
  skipOver
  unlessDone .classUnclosed start
  let negated ← readNegation start
  let members ← readFirstMembers start
  return (⟨← since start, negated, around, none⟩, members)

def readMember : Reader Expression := do
  match ← peek? with
  | some '\\' => readEscape
  | some c =>
    let span ← nextSpan
    skip
    return .literal ⟨span, c, false⟩
  | none => fail .classUnclosed (← since (← position))

def memberOf : Expression → Reader CharClass
  | .literal l => return .literal l
  | .charClass c => return c
  | e => fail .classEscapeInvalid e.span

def endpointOf : Expression → Reader Literal
  | .literal l => return l
  | e => fail .classRangeLiteral e.span

/-- Reads a range from its hyphen on. -/
def readRangeFrom (opening : Span) (first : Expression) : Reader CharClass := do
  skipOver
  if ← isDone then fail .classUnclosed opening
  else
    let last ← readMember
    let span : Span := ⟨first.span.start, last.span.stop⟩
    let low ← endpointOf first
    let high ← endpointOf last
    if high.char < low.char then fail .classRangeInvalid span else return .range span low high

/-- Reads a member of a class or a range. A hyphen makes no range before the closing bracket or
another hyphen. -/
def readRange (opening : Span) : Reader CharClass := do
  let first ← readMember
  skipBlanks
  let behind := (← get).peekBehind?
  if ← isDone then fail .classUnclosed opening
  else if (← peek?) ≠ some '-' || behind = some ']' || behind = some '-' then memberOf first
  else readRangeFrom opening first

/-- The signs of operations; each is written twice. -/
def operationSigns : List (Char × SetOperation) :=
  [('&', .inter), ('-', .diff), ('~', .symmDiff)]

def operation? : List Char → Option SetOperation
  | c :: d :: _ => if c = d then operationSigns.lookup c else none
  | _ => none

/-- The classes that are open, and the members so far of the innermost one. -/
structure OpenClasses where
  innermost : OpenClass
  outer : List OpenClass
  members : Members

def OpenClass.closed (o : OpenClass) (m : Members) (stop : Nat) : CharClass :=
  .bracketed ⟨o.span.start, stop⟩ o.negated (o.body m)

/-- The classes that are open when the innermost one is closed, or the class that was the last. -/
def OpenClasses.close (o : OpenClasses) (stop : Nat) : OpenClasses ⊕ CharClass :=
  let closed := o.innermost.closed o.members stop
  match o.outer with
  | [] => .inr closed
  | next :: outer => .inl ⟨next, outer, o.innermost.around.add closed⟩

/-- Reads what comes next in a class that is not closed. -/
def readClassPart (o : OpenClasses) : Reader OpenClasses := do
  match ← peek? with
  | none => fail .classUnclosed o.innermost.span
  | some '[' =>
    match namedClass? (← get).rest with
    | some (negated, name, length) =>
      let start ← position
      modify (·.advance length)
      return { o with members := o.members.add (.named (← since start) negated name) }
    | none =>
      let (inner, members) ← readOpening o.members
      return ⟨inner, o.innermost :: o.outer, members⟩
  | some _ =>
    match operation? (← get).rest with
    | some operation =>
      modify (·.advance 2)
      let left := some (o.innermost.body o.members, operation)
      return ⟨{ o.innermost with left }, o.outer, ⟨← position, []⟩⟩
    | none =>
      let member ← readRange o.innermost.span
      return { o with members := o.members.add member }

/-- Reads a class to its end, and then those around it. Every round reads a character, and `count`
is the number of rounds that are left. -/
def readMembers : (count : Nat) → OpenClasses → Reader CharClass
  | 0, o => fail .classUnclosed o.innermost.span
  | count + 1, o => do
    skipBlanks
    if (← peek?) = some ']' then
      skip
      match o.close (← position) with
      | .inl o => readMembers count o
      | .inr c => return c
    else readMembers count (← readClassPart o)

def readClass : Reader CharClass := do
  let (opening, members) ← readOpening ⟨← position, []⟩
  readMembers ((← get).rest.length + 1) ⟨opening, [], members⟩

end Variability.Regex
