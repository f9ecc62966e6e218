import Variability.Formula

/-!
Formulas in the syntax of preprocessor guards: `!`, `&&`, `||`, parentheses, and `1` and `0` for
the constants. A feature whose name is no identifier stands in parentheses, so that its text
reads as one operand.
-/

namespace Variability

/-- Characters that an identifier may start with. -/
def isNameStart (c : Char) : Bool :=
  c.isAlpha || c == '_'

/-- Characters that an identifier may go on with. -/
def isNameChar (c : Char) : Bool :=
  c.isAlphanum || c == '_'

def isIdentifier : List Char → Bool
  | [] => false
  | c :: cs => isNameStart c && cs.all isNameChar

namespace Formula

/-- How tightly a printed formula holds together. -/
def precedence : Formula → Nat
  | or _ => 1
  | and _ => 2
  | tt | ff | var _ | not _ => 3

def parenthesize (needed : Bool) (text : List Char) : List Char :=
  if needed then '(' :: (text ++ [')']) else text

mutual
/-- An operand stands in parentheses unless it holds together more tightly than what it is an
operand of. -/
def print : Formula → List Char
  | tt => ['1']
  | ff => ['0']
  | var x => parenthesize (!isIdentifier x.toList) x.toList
  | not f => '!' :: parenthesize (f.precedence ≤ 2) f.print
  | and fs => printOperands 2 " && ".toList fs
  | or fs => printOperands 1 " || ".toList fs

def printOperands (level : Nat) (mark : List Char) : List Formula → List Char
  | [] => []
  | [f] => parenthesize (f.precedence ≤ level) f.print
  | f :: g :: fs =>
    parenthesize (f.precedence ≤ level) f.print ++ mark ++ printOperands level mark (g :: fs)
end

def display (f : Formula) : String :=
  String.ofList f.print

end Formula

end Variability
