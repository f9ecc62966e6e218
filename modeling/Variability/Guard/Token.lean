import Variability.Formula.Printer
import Variability.Text.Blank

/-!
The tokens of a guard expression. Text is scanned after its comments are gone; everything that
has no boolean meaning (operators, quoted text, stray characters) is a token of kind `other`. The
normal form of a token list joins the tokens by single blanks, except where preprocessor code is
usually written without one.
-/

namespace Variability.Guard

open Text (isBlank)

inductive Token where
  | identifier (name : List Char)
  | number (literal : List Char)
  | leftParen
  | rightParen
  | negation
  | conjunction
  | disjunction
  | other (text : List Char)
  deriving DecidableEq, Repr

/-- Takes comments out: a line comment ends the text, a block comment counts as one blank and,
left open, reaches to the end. -/
def stripComments : (inside : Bool) → List Char → List Char
  | _, [] => []
  | false, '/' :: '/' :: _ => []
  | false, '/' :: '*' :: cs => ' ' :: stripComments true cs
  | false, c :: cs => c :: stripComments false cs
  | true, '*' :: '/' :: cs => stripComments false cs
  | true, _ :: cs => stripComments true cs

namespace Token

def text : Token → List Char
  | identifier name => name
  | number literal => literal
  | leftParen => ['(']
  | rightParen => [')']
  | negation => ['!']
  | conjunction => ['&', '&']
  | disjunction => ['|', '|']
  | other text => text

/-- Characters that a number may go on with: names for bases, digits of any base, suffixes. -/
def isNumberChar (c : Char) : Bool :=
  c.isAlphanum || c == '.' || c == '_'

/-- Quoted text behind its opening quote, up to and with the closing one, and what follows. A
backslash takes the next character with it; text that is never closed reaches to the end. -/
def quoted (quote : Char) : List Char → List Char × List Char
  | [] => ([], [])
  | '\\' :: [] => (['\\'], [])
  | '\\' :: c :: cs => ('\\' :: c :: (quoted quote cs).1, (quoted quote cs).2)
  | c :: cs =>
    if c = quote then ([c], cs) else (c :: (quoted quote cs).1, (quoted quote cs).2)

theorem length_quoted_le (quote : Char) (cs : List Char) :
    (quoted quote cs).2.length ≤ cs.length := by
  fun_induction quoted quote cs with
  | case1 | case2 => simp
  | case3 c cs ih => simp; omega
  | case4 c cs => simp
  | case5 c cs _ _ ih => simp; omega

def ofPair? : Char → Char → Option Token
  | '&', '&' => some conjunction
  | '|', '|' => some disjunction
  | '=', '=' => some (other ['=', '='])
  | '!', '=' => some (other ['!', '='])
  | '<', '=' => some (other ['<', '='])
  | '>', '=' => some (other ['>', '='])
  | '<', '<' => some (other ['<', '<'])
  | '>', '>' => some (other ['>', '>'])
  | _, _ => none

def ofChar : Char → Token
  | '(' => leftParen
  | ')' => rightParen
  | '!' => negation
  | c => other [c]

def scan : List Char → List Token
  | [] => []
  | c :: cs =>
    if isBlank c then
      scan cs
    else if isNameStart c then
      identifier (c :: cs.takeWhile isNameChar) :: scan (cs.dropWhile isNameChar)
    else if c.isDigit then
      number (c :: cs.takeWhile isNumberChar) :: scan (cs.dropWhile isNumberChar)
    else if c = '\'' || c = '"' then
      other (c :: (quoted c cs).1) :: scan (quoted c cs).2
    else
      match cs with
      | [] => [ofChar c]
      | d :: ds =>
        match ofPair? c d with
        | some token => token :: scan ds
        | none => ofChar c :: scan (d :: ds)
termination_by cs => cs.length
decreasing_by
  · simp
  · exact Nat.lt_succ_of_le (List.dropWhile_suffix _).length_le
  · exact Nat.lt_succ_of_le (List.dropWhile_suffix _).length_le
  · exact Nat.lt_succ_of_le (length_quoted_le _ _)
  · exact Nat.lt_succ_of_lt (Nat.lt_succ_self _)
  · exact Nat.lt_succ_self _

/-- Whether two neighbours stand without a blank between them: inside parentheses, before a
comma, behind `!` unless an operator follows, and between a macro and its arguments. -/
def glued : Token → Token → Bool
  | leftParen, _ => true
  | _, rightParen => true
  | _, other [','] => true
  | negation, other _ => false
  | negation, _ => true
  | identifier _, leftParen => true
  | _, _ => false

def render : List Token → List Char
  | [] => []
  | [t] => t.text
  | t :: u :: ts => t.text ++ (if glued t u then [] else [' ']) ++ render (u :: ts)

end Token

end Variability.Guard
