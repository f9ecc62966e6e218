import Variability.Guard
import Variability.NodeKind
import Variability.Text.WordChar

/-!
Conditional directives. A line is a directive when it holds nothing but blanks before a `#`, and
behind it, after further blanks, one of the eight keywords as a whole word. Every other line is
code, whatever else the preprocessor makes of it.
-/

namespace Variability

/-- A recognized directive; the guard is there exactly for the kinds that carry one. -/
structure Directive where
  kind : NodeKind
  guard : Option Guard
  deriving DecidableEq, Repr

namespace Directive

inductive Keyword where
  /-- `if` and `elif`: a guard expression follows. -/
  | expression (kind : NodeKind)
  /-- `ifdef` and its relatives: one macro name follows, and is asked for or ruled out. -/
  | macroName (kind : NodeKind) (defined : Bool)
  /-- `else` and `endif`: whatever follows is ignored. -/
  | bare (kind : NodeKind)
  deriving DecidableEq, Repr

def keywords : List (String × Keyword) :=
  [("if", .expression .ifBranch),
    ("ifdef", .macroName .ifBranch true),
    ("ifndef", .macroName .ifBranch false),
    ("elif", .expression .elifBranch),
    ("elifdef", .macroName .elifBranch true),
    ("elifndef", .macroName .elifBranch false),
    ("else", .bare .elseBranch),
    ("endif", .bare .endif)]

def Keyword.ofWord? (word : List Char) : Option Keyword :=
  (keywords.find? fun (name, _) => name.toList = word).map Prod.snd

/-- The keyword of a directive and what follows it on the line. -/
def split? (line : List Char) : Option (Keyword × List Char) :=
  match Text.trimStart line with
  | '#' :: cs =>
    let cs := Text.trimStart cs
    let rest := cs.dropWhile Text.isWordChar
    if rest.contains '\n' then none
    else (Keyword.ofWord? (cs.takeWhile Text.isWordChar)).map (·, rest)
  | _ => none

def isDirective (line : List Char) : Bool :=
  (split? line).isSome

/-- The guard that asks whether a macro is defined, or that it is not. -/
def macroGuard (defined : Bool) (rest : List Char) : Except GuardError Guard :=
  let name := (Text.words (Guard.stripComments false rest)).headD []
  if isIdentifier name then
    let label := "defined(".toList ++ name ++ [')']
    let feature := Formula.var (String.ofList name)
    if defined then .ok ⟨String.ofList label, feature⟩
    else .ok ⟨String.ofList ('!' :: label), feature.neg⟩
  else
    .error (.expectedIdentifier (String.ofList name))

def Keyword.read (rest : List Char) : Keyword → Except GuardError Directive
  | expression kind => (Guard.parse rest).map fun guard => ⟨kind, some guard⟩
  | macroName kind defined => (macroGuard defined rest).map fun guard => ⟨kind, some guard⟩
  | bare kind => .ok ⟨kind, none⟩

/-- Reads a line: no directive at all, a directive, or one whose guard cannot be read. -/
def ofLine (line : List Char) : Except GuardError (Option Directive) :=
  match split? line with
  | none => .ok none
  | some (keyword, rest) => (keyword.read rest).map some

end Directive

end Variability
