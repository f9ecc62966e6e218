import Variability.CommandLine.Arguments
import Variability.LineGraph.Writer

/-!
What a line of arguments asks for. A value on the line wins over one from the environment, and that
over the default; of two on the line, the one behind the command wins. A history is mined either
from a repository or from a directory of patches.
-/

namespace Variability.CommandLine

inductive OutputFormat where
  | human
  | json
  deriving DecidableEq, Repr

inductive InputSource where
  | standardInput
  | file (path : String)
  deriving DecidableEq, Repr

def InputSource.ofOperand (operand : String) : InputSource :=
  if operand = "-" then standardInput else file operand

def InputSource.label : InputSource → String
  | standardInput => "-"
  | file path => path

inductive HistorySource where
  | repository (directory : String)
  | patches (directory : String)
  deriving DecidableEq, Repr

structure MineArguments where
  source : HistorySource
  output : String
  batchSize : Nat
  threads : Option Nat
  maxVariables : Nat
  extensions : List String
  allowedPaths : List String
  blockedPaths : List String
  allowMerge : Bool
  required : List String
  cutUnedited : Bool
  force : Bool
  options : LineGraph.Options
  deriving DecidableEq, Repr

inductive Command where
  | parse (source : InputSource) (options : LineGraph.Options)
  | classify (source : InputSource) (semantic : Bool)
  | importGraph (source : InputSource) (options : LineGraph.Options)
  | mine (arguments : MineArguments)
  | summarize (files : List String)
  deriving DecidableEq, Repr

structure Invocation where
  command : Command
  format : OutputFormat
  quiet : Bool
  verbose : Bool
  maxFileSize : Nat
  deriving DecidableEq, Repr

structure Settings where
  line : Line
  env : Environment

namespace Settings

def value? (s : Settings) (switch : Switch) : Option String :=
  (s.line.behind.values switch).head? <|> (s.line.before.values switch).head? <|>
    s.env.value? switch <|> switch.defaultValue?

def has (s : Settings) (switch : Switch) : Bool :=
  s.line.behind.has switch || s.line.before.has switch

def number? (s : Settings) (switch : Switch) : Option Nat :=
  (s.value? switch).bind fun value => Text.readDecimal? value.toList

def format (s : Settings) : OutputFormat :=
  if s.value? .format = some "json" then .json else .human

def options (s : Settings) : LineGraph.Options where
  shape := if s.value? .graphFormat = some "graph" then .graph else .tree
  nodes := if s.value? .nodeFormat = some "type" then .typeOnly else .labeled

def mine? (s : Settings) : Option MineArguments := do
  let source ←
    match s.value? .repo, s.value? .patches with
    | some directory, none => some (HistorySource.repository directory)
    | none, some directory => some (HistorySource.patches directory)
    | none, none | some _, some _ => none
  return {
    source
    output := ← s.value? .output
    batchSize := ← s.number? .batchSize
    threads := s.number? .threads
    maxVariables := ← s.number? .maxVariables
    extensions := s.line.behind.values .extension
    allowedPaths := s.line.behind.values .allowPath
    blockedPaths := s.line.behind.values .blockPath
    allowMerge := s.has .allowMerge
    required := s.line.behind.values .require
    cutUnedited := s.has .cutUnedited
    force := s.has .force
    options := s.options }

def command? (s : Settings) : Option Command :=
  let operands := s.line.behind.operands
  let source := operands.head?.map InputSource.ofOperand
  match s.line.verb with
  | .parse => source.map (.parse · s.options)
  | .classify => source.map (.classify · (s.has .semantic))
  | .importGraph => source.map (.importGraph · s.options)
  | .mine => s.mine?.map .mine
  | .summarize => if operands.isEmpty then none else some (.summarize operands)

def invocation? (s : Settings) : Option Invocation := do
  return {
    command := ← s.command?
    format := s.format
    quiet := s.has .quiet
    verbose := s.has .verbose
    maxFileSize := ← s.number? .maxFileSize }

end Settings

def readArguments (env : Environment) (arguments : List String) : Except Refusal Invocation := do
  let line ← Line.read env arguments
  match Settings.invocation? ⟨line, env⟩ with
  | none => .error .usage
  | some invocation => return invocation

end Variability.CommandLine
