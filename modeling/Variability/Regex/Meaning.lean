import Variability.Regex.Expression
import Variability.Text.Blank
import Variability.Text.Digit
import Variability.Text.LetterCase
import Variability.Text.Property

/-!
The meaning of written expressions. Flags say how parts are meant: whether letter case counts, how
lines end, and whether classes reach over all of Unicode or over the basic alphabet only. In the
latter case a part that could stand for a lone byte of a longer character has no meaning.
-/

namespace Variability.Regex

open Text (CharSet)

structure Flags where
  ignoreCase : Bool
  multiLine : Bool
  dotAll : Bool
  unicode : Bool
  crlf : Bool
  deriving DecidableEq, Repr

namespace Flags

def standard : Flags :=
  ⟨false, false, false, true, false⟩

def set (f : Flags) : Flag × Bool → Flags
  | (.ignoreCase, on) => { f with ignoreCase := on }
  | (.multiLine, on) => { f with multiLine := on }
  | (.dotAll, on) => { f with dotAll := on }
  | (.unicode, on) => { f with unicode := on }
  | (.crlf, on) => { f with crlf := on }
  | (.swapGreed, _) | (.ignoreBlanks, _) => f

def change (f : Flags) (changes : FlagChanges) : Flags :=
  changes.foldl set f

/-- Adds the letters that differ in case only, if case does not count. -/
def fold (f : Flags) (s : CharSet) : CharSet :=
  if !f.ignoreCase then s
  else if f.unicode then s.ignoringCase
  else s.ignoringAsciiCase

end Flags

def setOfRanges (ranges : List (Char × Char)) : CharSet :=
  ranges.foldl (fun s (low, high) => s.addRange low.toNat high.toNat) .empty

def NamedClass.set : NamedClass → CharSet
  | alnum => setOfRanges [('0', '9'), ('A', 'Z'), ('a', 'z')]
  | alpha => setOfRanges [('A', 'Z'), ('a', 'z')]
  | ascii => .ascii
  | blank => setOfRanges [('\t', '\t'), (' ', ' ')]
  | cntrl => setOfRanges [('\x00', '\x1f'), ('\x7f', '\x7f')]
  | digit => setOfRanges [('0', '9')]
  | graph => setOfRanges [('!', '~')]
  | lower => setOfRanges [('a', 'z')]
  | print => setOfRanges [(' ', '~')]
  | punct => setOfRanges [('!', '/'), (':', '@'), ('[', '\x60'), ('{', '~')]
  | space => setOfRanges [('\t', '\r'), (' ', ' ')]
  | upper => setOfRanges [('A', 'Z')]
  | word => setOfRanges [('0', '9'), ('A', 'Z'), ('_', '_'), ('a', 'z')]
  | xdigit => setOfRanges [('0', '9'), ('A', 'F'), ('a', 'f')]

/-- The characters of a shorthand, in all scripts or in the basic alphabet. -/
def Shorthand.set (unicode : Bool) : Shorthand → CharSet
  | digit => if unicode then ⟨Text.digitRanges⟩ else NamedClass.digit.set
  | blank => if unicode then ⟨Text.blankRanges⟩ else NamedClass.space.set
  | word => if unicode then ⟨Text.wordRanges⟩ else NamedClass.word.set

def failure {α : Type} (cause : Cause) (span : Span) : Except Problem α :=
  .error ⟨cause, span, none⟩

/-- A set, or the characters that are not in it. The latter are not for the basic alphabet alone. -/
def negatedIf (f : Flags) (span : Span) (negated : Bool) (s : CharSet) : Except Problem CharSet :=
  if !negated then .ok s
  else if f.unicode then .ok s.complement
  else failure .utf8Broken span

/-- Without Unicode, a byte has to stand for a character of the basic alphabet. -/
def Literal.check (f : Flags) (l : Literal) : Except Problem Char :=
  if !f.unicode && l.isByte && 0x7F < l.char.toNat then failure .utf8Broken l.span
  else .ok l.char

def Literal.member (f : Flags) (l : Literal) : Except Problem Nat := do
  let c ← l.check f
  if !f.unicode && 0x7F < c.toNat then failure .unicodeForbidden l.span else return c.toNat

def PropertyQuery.set (span : Span) (query : PropertyQuery) : Except Problem CharSet :=
  let found :=
    match query with
    | .name n => Text.Property.ofName n
    | .value p v => Text.Property.ofValue p v
  match found with
  | .ok s => .ok s
  | .error .propertyNotFound => failure .propertyNotFound span
  | .error .valueNotFound => failure .propertyValueNotFound span

def SetOperation.apply : SetOperation → CharSet → CharSet → CharSet
  | inter, s, t => s.inter t
  | diff, s, t => s.diff t
  | symmDiff, s, t => s.symmDiff t

mutual
/-- The characters of a class. Letter case is taken care of before a class is negated, and on both
sides of an operation before it is done; shorthands need no care. -/
def CharClass.set (f : Flags) : CharClass → Except Problem CharSet
  | .empty _ => .ok .empty
  | .literal l => do
    let n ← l.member f
    return .ofRange n n
  | .range _ low high => do return .ofRange (← low.member f) (← high.member f)
  | .named span negated n => negatedIf f span negated (f.fold n.set)
  | .property span negated q => do
    if !f.unicode then failure .unicodeForbidden span
    else negatedIf f span negated (f.fold (← q.set span))
  | .shorthand span negated kind => negatedIf f span negated (kind.set f.unicode)
  | .bracketed span negated body => do negatedIf f span negated (f.fold (← body.set f))
  | .union _ members => CharClass.setOfAll f members
  | .operation _ o left right => do
    let s ← left.set f
    let t ← right.set f
    return o.apply (f.fold s) (f.fold t)

def CharClass.setOfAll (f : Flags) : List CharClass → Except Problem CharSet
  | [] => .ok .empty
  | c :: cs => do
    let s ← c.set f
    let t ← CharClass.setOfAll f cs
    return s.union t
end

def Assertion.look (f : Flags) : Assertion → Look
  | textStart => .textStart
  | textStop => .textStop
  | lineStart => if f.multiLine then .lineStart f.crlf else .textStart
  | lineStop => if f.multiLine then .lineStop f.crlf else .textStop
  | word place => .word place !f.unicode

def dotSet (f : Flags) : CharSet :=
  if f.dotAll then .all
  else if f.crlf then (setOfRanges [('\n', '\n'), ('\r', '\r')]).complement
  else (CharSet.single '\n').complement

mutual
/-- The meaning of an expression, and the flags for what follows it. Flags hold up to the end of the
group that they stand in, also in the alternatives behind. -/
def Expression.meaning (f : Flags) : Expression → Except Problem (Regex × Flags)
  | .empty _ => .ok (.empty, f)
  | .flags _ changes => .ok (.empty, f.change changes)
  | .literal l => do
    let c ← l.check f
    return (.char (f.fold (.single c)), f)
  | .dot span => if f.unicode then .ok (.char (dotSet f), f) else failure .utf8Broken span
  | .assertion _ a => .ok (.look (a.look f), f)
  | .charClass c => do
    let s ← c.set f
    return (.char s, f)
  | .repetition _ body least most => do
    let (r, _) ← body.meaning f
    return (.times r least most, f)
  | .group _ .capture body => do
    let (r, _) ← body.meaning f
    return (.capture r, f)
  | .group _ (.flags changes) body => do
    let (r, _) ← body.meaning (f.change changes)
    return (r, f)
  | .alternation _ branches => Expression.meaningOfAny f branches
  | .sequence _ parts => Expression.meaningOfAll f parts

def Expression.meaningOfAny (f : Flags) : List Expression → Except Problem (Regex × Flags)
  | [] => .ok (.empty, f)
  | [e] => e.meaning f
  | e :: es => do
    let (r, f) ← e.meaning f
    let (s, f) ← Expression.meaningOfAny f es
    return (.alt r s, f)

def Expression.meaningOfAll (f : Flags) : List Expression → Except Problem (Regex × Flags)
  | [] => .ok (.empty, f)
  | [e] => e.meaning f
  | e :: es => do
    let (r, f) ← e.meaning f
    let (s, f) ← Expression.meaningOfAll f es
    return (.seq r s, f)
end

end Variability.Regex
