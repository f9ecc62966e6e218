import Variability.Text.Lines

/-!
What is wrong with the text of a regular expression. A problem has a cause and is about some
characters, perhaps with others that it clashes with; its report shows the text with these marked.
-/

namespace Variability.Regex

/-- How deep groups, repetitions and classes may lie in each other. -/
def maxDepth : Nat := 250

inductive Cause where
  | backreference
  | classEscapeInvalid
  | classRangeInvalid
  | classRangeLiteral
  | classUnclosed
  | countEmpty
  | countInvalid
  | countTooLarge
  | countUnclosed
  | escapeUnfinished
  | escapeUnknown
  | flagDangling
  | flagNegatedTwice
  | flagTwice
  | flagUnfinished
  | flagUnknown
  | groupUnclosed
  | groupUnopened
  | hexDigitInvalid
  | hexEmpty
  | hexInvalid
  | lookAround
  | nameEmpty
  | nameInvalid
  | nameTwice
  | nameUnclosed
  | nestedTooDeep
  | propertyInvalid
  | repetitionMissing
  | wordPlaceUnclosed
  | wordPlaceUnfinished
  | wordPlaceUnknown
  | propertyNotFound
  | propertyValueNotFound
  | unicodeForbidden
  | utf8Broken
  deriving DecidableEq, Repr

def Cause.message : Cause → String
  | backreference => "backreferences are not supported"
  | classEscapeInvalid => "invalid escape sequence found in character class"
  | classRangeInvalid => "invalid character class range, the start must be <= the end"
  | classRangeLiteral => "invalid range boundary, must be a literal"
  | classUnclosed => "unclosed character class"
  | countEmpty => "repetition quantifier expects a valid decimal"
  | countInvalid => "invalid repetition count range, the start must be <= the end"
  | countTooLarge => "decimal literal invalid"
  | countUnclosed => "unclosed counted repetition"
  | escapeUnfinished => "incomplete escape sequence, reached end of pattern prematurely"
  | escapeUnknown => "unrecognized escape sequence"
  | flagDangling => "dangling flag negation operator"
  | flagNegatedTwice => "flag negation operator repeated"
  | flagTwice => "duplicate flag"
  | flagUnfinished => "expected flag but got end of regex"
  | flagUnknown => "unrecognized flag"
  | groupUnclosed => "unclosed group"
  | groupUnopened => "unopened group"
  | hexDigitInvalid => "invalid hexadecimal digit"
  | hexEmpty => "hexadecimal literal empty"
  | hexInvalid => "hexadecimal literal is not a Unicode scalar value"
  | lookAround => "look-around, including look-ahead and look-behind, is not supported"
  | nameEmpty => "empty capture group name"
  | nameInvalid => "invalid capture group character"
  | nameTwice => "duplicate capture group name"
  | nameUnclosed => "unclosed capture group name"
  | nestedTooDeep => s!"exceed the maximum number of nested parentheses/brackets ({maxDepth})"
  | propertyInvalid => "invalid Unicode character class"
  | repetitionMissing => "repetition operator missing expression"
  | wordPlaceUnclosed =>
    "special word boundary assertion is either unclosed or contains an invalid character"
  | wordPlaceUnfinished =>
    "found either the beginning of a special word boundary or a bounded repetition on a \\b " ++
    "with an opening brace, but no closing brace"
  | wordPlaceUnknown =>
    "unrecognized special word boundary assertion, valid choices are: start, end, start-half " ++
    "or end-half"
  | propertyNotFound => "Unicode property not found"
  | propertyValueNotFound => "Unicode property value not found"
  | unicodeForbidden => "Unicode not allowed here"
  | utf8Broken => "pattern can match invalid UTF-8"

structure Span where
  start : Nat
  stop : Nat
  deriving DecidableEq, Repr

structure Problem where
  cause : Cause
  span : Span
  /-- What the characters clash with. -/
  other : Option Span
  deriving DecidableEq, Repr

/-- A place in a text by line and column, both counted from zero. -/
structure LineColumn where
  line : Nat
  column : Nat
  deriving DecidableEq, Repr

def LineColumn.ofPosition (text : List Char) (position : Nat) : LineColumn :=
  let pieces := Text.pieces (text.take position)
  ⟨pieces.length - 1, (pieces.getLast?.elim 0 List.length)⟩

structure Extent where
  start : LineColumn
  stop : LineColumn

namespace Problem

def spans (p : Problem) : List Span :=
  (p.span :: p.other.toList).mergeSort fun a b =>
    a.start < b.start || (a.start = b.start && a.stop ≤ b.stop)

def extents (p : Problem) (text : List Char) : List Extent :=
  p.spans.map fun s => ⟨.ofPosition text s.start, .ofPosition text s.stop⟩

/-- Adds marks from one column up to another; at least one mark is made. -/
def addMarks (marks : List Char) (e : Extent) : List Char :=
  let blanks := List.replicate (e.start.column - marks.length) ' '
  marks ++ blanks ++ List.replicate (max 1 (e.stop.column - e.start.column)) '^'

/-- The lines of a text, each with a label before it and the marks of the extents that lie in it
below it. -/
def markedLines (extents : List Extent) (label : Nat → List Char) (text : List Char) :
    List (List Char) :=
  (Text.lines text).zipIdx.flatMap fun (line, i) =>
    let here := extents.filter fun e => e.start.line = i && e.stop.line = i
    let marks := here.foldl addMarks []
    let label := label i
    (label ++ line) ::
      if here.isEmpty then [] else [List.replicate label.length ' ' ++ marks]

def lineLabel (width i : Nat) : List Char :=
  let number := Nat.toDigits 10 (i + 1)
  List.replicate (width - number.length) ' ' ++ number ++ [':', ' ']

/-- Says from where to where an extent goes that is not in one line. -/
def farNote (e : Extent) : String :=
  s!"on line {e.start.line + 1} (column {e.start.column + 1}) through " ++
    s!"line {e.stop.line + 1} (column {e.stop.column})"

/-- Shows a problem in the text. Several lines are numbered and stand between dividers. -/
def report (p : Problem) (text : List Char) : String :=
  let extents := p.extents text
  let far := extents.filter fun e => e.start.line ≠ e.stop.line
  let shown :=
    if text.contains '\n' then
      let divider := List.replicate 79 '~'
      let width := (Nat.toDigits 10 (Text.lines text).length).length
      let notes := if far.isEmpty then [] else far.map fun e => (farNote e).toList
      [divider] ++ markedLines extents (lineLabel width) text ++ [divider] ++ notes
    else markedLines extents (fun _ => List.replicate 4 ' ') text
  s!"regex parse error:\n{String.ofList (Text.unlines shown)}error: {p.cause.message}"

end Problem

end Variability.Regex
