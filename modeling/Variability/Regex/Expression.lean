import Variability.Regex
import Variability.Regex.Problem

/-!
Regular expressions as they are written. Every part knows the characters that it was read from.
-/

namespace Variability.Regex

structure Literal where
  span : Span
  char : Char
  /-- Whether it is written as one byte, with two digits to the base of sixteen. -/
  isByte : Bool
  deriving Repr

inductive Shorthand where
  | digit
  | blank
  | word
  deriving DecidableEq, Repr

/-- Classes of the basic alphabet, which are named inside another class. -/
inductive NamedClass where
  | alnum
  | alpha
  | ascii
  | blank
  | cntrl
  | digit
  | graph
  | lower
  | print
  | punct
  | space
  | upper
  | word
  | xdigit
  deriving DecidableEq, Repr

inductive PropertyQuery where
  | name (name : List Char)
  | value (property value : List Char)
  deriving DecidableEq, Repr

inductive SetOperation where
  | inter
  | diff
  | symmDiff
  deriving DecidableEq, Repr

inductive CharClass where
  | empty (span : Span)
  | literal (literal : Literal)
  | range (span : Span) (low high : Literal)
  | named (span : Span) (negated : Bool) (name : NamedClass)
  | property (span : Span) (negated : Bool) (query : PropertyQuery)
  | shorthand (span : Span) (negated : Bool) (kind : Shorthand)
  | bracketed (span : Span) (negated : Bool) (body : CharClass)
  | union (span : Span) (members : List CharClass)
  | operation (span : Span) (operation : SetOperation) (left right : CharClass)
  deriving Repr

def CharClass.span : CharClass → Span
  | literal l => l.span
  | empty span | range span .. | named span .. | property span .. | shorthand span ..
  | bracketed span .. | union span _ | operation span .. => span

inductive Flag where
  | ignoreCase
  | multiLine
  | dotAll
  | swapGreed
  | unicode
  | crlf
  | ignoreBlanks
  deriving DecidableEq, Repr

namespace Flag

def ofLetter? : Char → Option Flag
  | 'i' => some ignoreCase
  | 'm' => some multiLine
  | 's' => some dotAll
  | 'U' => some swapGreed
  | 'u' => some unicode
  | 'R' => some crlf
  | 'x' => some ignoreBlanks
  | _ => none

end Flag

abbrev FlagChanges := List (Flag × Bool)

/-- What a place is asked for, before it is known how lines end and what a word is. -/
inductive Assertion where
  | textStart
  | textStop
  | lineStart
  | lineStop
  | word (place : WordPlace)
  deriving DecidableEq, Repr

inductive GroupKind where
  | capture
  | flags (changes : FlagChanges)
  deriving Repr

inductive Expression where
  | empty (span : Span)
  | flags (span : Span) (changes : FlagChanges)
  | literal (literal : Literal)
  | dot (span : Span)
  | assertion (span : Span) (assertion : Assertion)
  | charClass (charClass : CharClass)
  | repetition (span : Span) (body : Expression) (least : Nat) (most : Option Nat)
  | group (span : Span) (kind : GroupKind) (body : Expression)
  | alternation (span : Span) (branches : List Expression)
  | sequence (span : Span) (parts : List Expression)
  deriving Repr

def Expression.span : Expression → Span
  | literal l => l.span
  | charClass c => c.span
  | empty span | flags span _ | dot span | assertion span _ | repetition span .. | group span ..
  | alternation span _ | sequence span _ => span

mutual
/-- What lies deeper in a class than `depth` levels, if anything does. -/
def CharClass.tooDeep? (depth : Nat) : CharClass → Option Span
  | .empty _ | .literal _ | .range .. | .named .. | .property .. | .shorthand .. => none
  | .bracketed span _ body => if depth = 0 then some span else body.tooDeep? (depth - 1)
  | .union span members =>
    if depth = 0 then some span else CharClass.anyTooDeep? (depth - 1) members
  | .operation span _ left right =>
    if depth = 0 then some span
    else left.tooDeep? (depth - 1) <|> right.tooDeep? (depth - 1)

def CharClass.anyTooDeep? (depth : Nat) : List CharClass → Option Span
  | [] => none
  | c :: cs => c.tooDeep? depth <|> CharClass.anyTooDeep? depth cs
end

mutual
/-- What lies deeper in an expression than `depth` levels, if anything does. -/
def Expression.tooDeep? (depth : Nat) : Expression → Option Span
  | .empty _ | .flags .. | .literal _ | .dot _ | .assertion .. => none
  | .charClass c => c.tooDeep? depth
  | .repetition span body .. | .group span _ body =>
    if depth = 0 then some span else body.tooDeep? (depth - 1)
  | .alternation span parts | .sequence span parts =>
    if depth = 0 then some span else Expression.anyTooDeep? (depth - 1) parts

def Expression.anyTooDeep? (depth : Nat) : List Expression → Option Span
  | [] => none
  | e :: es => e.tooDeep? depth <|> Expression.anyTooDeep? depth es
end

end Variability.Regex
