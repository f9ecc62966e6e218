import Variability.Text.Lines
import Variability.Text.Number

/-!
Values of the JSON data format, and their text over several lines: every element and every member
on a line of its own, two blanks further in than the value that it belongs to.
-/

namespace Variability

inductive Json where
  | null
  | bool (value : Bool)
  | number (value : Nat)
  | string (value : String)
  | array (elements : List Json)
  | object (members : List (String × Json))
  deriving Repr, Inhabited

namespace Json

def ofOption {α : Type} (f : α → Json) (value : Option α) : Json :=
  value.elim null f

def strings (values : List String) : Json :=
  array (values.map string)

def escape (c : Char) : List Char :=
  if c = '"' then ['\\', '"']
  else if c = '\\' then ['\\', '\\']
  else if c = '\n' then ['\\', 'n']
  else if c = '\r' then ['\\', 'r']
  else if c = '\t' then ['\\', 't']
  else if c = '\x08' then ['\\', 'b']
  else if c = '\x0c' then ['\\', 'f']
  else if c.toNat < 0x20 then
    ['\\', 'u', '0', '0', Nat.digitChar (c.toNat / 16), Nat.digitChar (c.toNat % 16)]
  else [c]

def quote (text : String) : List Char :=
  '"' :: text.toList.flatMap escape ++ ['"']

def newLine (depth : Nat) : List Char :=
  '\n' :: List.replicate (2 * depth) ' '

mutual
def print (depth : Nat) : Json → List Char
  | null => "null".toList
  | bool value => (if value then "true" else "false").toList
  | number value => Text.decimal value
  | string value => quote value
  | array [] => ['[', ']']
  | array (e :: es) =>
    '[' :: (newLine (depth + 1) ++ print (depth + 1) e ++ printElements (depth + 1) es) ++
      newLine depth ++ [']']
  | object [] => ['\x7b', '\x7d']
  | object ((key, value) :: members) =>
    '\x7b' :: (newLine (depth + 1) ++ quote key ++ ": ".toList ++ print (depth + 1) value ++
      printMembers (depth + 1) members) ++ newLine depth ++ ['\x7d']

def printElements (depth : Nat) : List Json → List Char
  | [] => []
  | e :: es => ',' :: newLine depth ++ print depth e ++ printElements depth es

def printMembers (depth : Nat) : List (String × Json) → List Char
  | [] => []
  | (key, value) :: members =>
    ',' :: newLine depth ++ quote key ++ ": ".toList ++ print depth value ++
      printMembers depth members
end

def pretty (value : Json) : String :=
  String.ofList (print 0 value ++ ['\n'])

end Json

end Variability
