import Variability.Guard.Token
import Variability.Text.Number

/-!
Guards of conditional directives. A guard is read as a propositional formula: `defined(X)`,
`defined X` and `X` are the feature `X`, the boolean operators keep their meaning, and integer
constants are true unless zero. What has no boolean meaning, such as a comparison or a call of a
macro, becomes one feature named by its own normalized text.
-/

namespace Variability

inductive GuardError where
  | empty
  | unbalancedParentheses
  | unexpectedEnd
  | unexpectedToken (text : String)
  | trailingInput (text : String)
  | expectedIdentifier (found : String)
  deriving DecidableEq, Repr

def GuardError.message : GuardError → String
  | empty => "empty guard expression"
  | unbalancedParentheses => "unbalanced parentheses"
  | unexpectedEnd => "unexpected end of expression"
  | unexpectedToken text => s!"unexpected token \"{text}\""
  | trailingInput text => s!"unexpected trailing input at \"{text}\""
  | expectedIdentifier found => s!"expected a macro name, found \"{found}\""

/-- A guard as it is kept: its normalized text and its propositional reading. -/
structure Guard where
  label : String
  formula : Formula
  deriving DecidableEq, Repr

namespace Guard

/-- The value of an integer literal: hexadecimal behind `0x`, octal behind `0`, decimal
otherwise, whatever the suffix for unsigned or long. -/
def integerValue? (literal : List Char) : Option Nat :=
  let digits := (literal.reverse.dropWhile ['u', 'U', 'l', 'L'].contains).reverse
  match digits with
  | '0' :: 'x' :: rest => Text.readWord? 16 rest
  | '0' :: 'X' :: rest => Text.readWord? 16 rest
  | '0' :: c :: rest => Text.readWord? 8 (c :: rest)
  | _ => Text.readDecimal? digits

abbrev Parsed (α : Type) := Except GuardError (α × List Token)

/-- Splits tokens before the first `&&`, `||` or `)` that is not inside parentheses. There is
none to be found when the parentheses never close. -/
def splitOperand? : (depth : Nat) → List Token → Option (List Token × List Token)
  | 0, [] => some ([], [])
  | _ + 1, [] => none
  | depth, .leftParen :: ts =>
    (splitOperand? (depth + 1) ts).map fun (operand, rest) => (.leftParen :: operand, rest)
  | 0, .rightParen :: ts => some ([], .rightParen :: ts)
  | depth + 1, .rightParen :: ts =>
    (splitOperand? depth ts).map fun (operand, rest) => (.rightParen :: operand, rest)
  | 0, .conjunction :: ts => some ([], .conjunction :: ts)
  | 0, .disjunction :: ts => some ([], .disjunction :: ts)
  | depth, t :: ts =>
    (splitOperand? depth ts).map fun (operand, rest) => (t :: operand, rest)

/-- Reads an operand without boolean meaning as one feature named by its normal form. -/
def parseAtom (ts : List Token) : Parsed Formula :=
  match splitOperand? 0 ts with
  | none => .error .unbalancedParentheses
  | some (operand, rest) => .ok (.var (String.ofList (Token.render operand)), rest)

/-- Reads what follows the word `defined`: a name, which may stand in parentheses. -/
def parseDefined : List Token → Parsed Formula
  | .leftParen :: .identifier name :: .rightParen :: ts => .ok (.var (String.ofList name), ts)
  | .leftParen :: .identifier _ :: _ => .error .unbalancedParentheses
  | .leftParen :: [] => .error (.expectedIdentifier "")
  | .leftParen :: t :: _ => .error (.expectedIdentifier (String.ofList t.text))
  | .identifier name :: ts => .ok (.var (String.ofList name), ts)
  | [] => .error (.expectedIdentifier "")
  | t :: _ => .error (.expectedIdentifier (String.ofList t.text))

/-- An operand that goes on with an operator has no boolean meaning after all and is read again
from its start. -/
def orAtom (start : List Token) : Formula × List Token → Parsed Formula
  | (_, .other _ :: _) => parseAtom start
  | parsed => .ok parsed

mutual
/-- Operands joined by `||`, read left to right. Every call spends one unit of `fuel`, and
`parseTokens` gives more than any token list needs. -/
def parseDisjuncts : (fuel : Nat) → List Token → Parsed (List Formula)
  | 0, _ => .error .unexpectedEnd
  | fuel + 1, ts =>
    match parseConjuncts fuel ts with
    | .error e => .error e
    | .ok (fs, .disjunction :: rest) =>
      match parseDisjuncts fuel rest with
      | .error e => .error e
      | .ok (gs, rest) => .ok (.conj fs :: gs, rest)
    | .ok (fs, rest) => .ok ([.conj fs], rest)

def parseConjuncts : (fuel : Nat) → List Token → Parsed (List Formula)
  | 0, _ => .error .unexpectedEnd
  | fuel + 1, ts =>
    match parseUnary fuel ts with
    | .error e => .error e
    | .ok (f, .conjunction :: rest) =>
      match parseConjuncts fuel rest with
      | .error e => .error e
      | .ok (fs, rest) => .ok (f :: fs, rest)
    | .ok (f, rest) => .ok ([f], rest)

def parseUnary : (fuel : Nat) → List Token → Parsed Formula
  | 0, _ => .error .unexpectedEnd
  | fuel + 1, .negation :: ts =>
    match parseUnary fuel ts with
    | .error e => .error e
    | .ok (f, rest) => .ok (.neg f, rest)
  | fuel + 1, ts => parsePrimary fuel ts

def parsePrimary : (fuel : Nat) → List Token → Parsed Formula
  | 0, _ => .error .unexpectedEnd
  | _ + 1, [] => .error .unexpectedEnd
  | fuel + 1, .leftParen :: ts =>
    match parseDisjuncts fuel ts with
    | .error e => .error e
    | .ok (fs, .rightParen :: rest) => orAtom (.leftParen :: ts) (.disj fs, rest)
    | .ok _ => .error .unbalancedParentheses
  | _ + 1, .identifier name :: ts =>
    if name = "defined".toList then
      match parseDefined ts with
      | .error e => .error e
      | .ok parsed => orAtom (.identifier name :: ts) parsed
    else
      match ts with
      | .leftParen :: _ => parseAtom (.identifier name :: ts)
      | _ => orAtom (.identifier name :: ts) (.var (String.ofList name), ts)
  | _ + 1, .number literal :: ts =>
    match integerValue? literal with
    | none => parseAtom (.number literal :: ts)
    | some value => orAtom (.number literal :: ts) (if value = 0 then .ff else .tt, ts)
  | _ + 1, .other text :: ts => parseAtom (.other text :: ts)
  | _ + 1, t :: _ => .error (.unexpectedToken (String.ofList t.text))
end

def parseTokens (ts : List Token) : Except GuardError Formula :=
  if ts.isEmpty then .error .empty
  else
    match parseDisjuncts (4 * ts.length + 4) ts with
    | .error e => .error e
    | .ok (fs, []) => .ok (.disj fs)
    | .ok (_, .rightParen :: _) => .error .unbalancedParentheses
    | .ok (_, t :: _) => .error (.trailingInput (String.ofList t.text))

def tokens (cs : List Char) : List Token :=
  Token.scan (stripComments false cs)

def parse (cs : List Char) : Except GuardError Guard :=
  match parseTokens (tokens cs) with
  | .error e => .error e
  | .ok formula => .ok ⟨String.ofList (Token.render (tokens cs)), formula⟩

end Guard

end Variability
