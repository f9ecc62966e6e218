import Variability.Text.Number

/-!
Switches of the program. A switch has a name behind two hyphens, perhaps a letter behind one, and
takes a value or none. Values come from a fixed choice, are numbers, name files, or are any text.
-/

namespace Variability.CommandLine

structure Choice where
  name : String
  meaning : String
  deriving DecidableEq, Repr

inductive Switch where
  | format
  | quiet
  | verbose
  | maxFileSize
  | help
  | version
  | graphFormat
  | nodeFormat
  | semantic
  | repo
  | patches
  | output
  | batchSize
  | threads
  | maxVariables
  | extension
  | allowPath
  | blockPath
  | allowMerge
  | require
  | cutUnedited
  | force
  deriving DecidableEq, Repr

inductive ValueKind where
  | nothing
  | oneOf (choices : List Choice)
  | number
  | path
  | text
  deriving DecidableEq, Repr

def ValueKind.accepts : ValueKind → String → Bool
  | nothing, _ => true
  | oneOf choices, value => choices.any (·.name = value)
  | number, value => (Text.readDecimal? value.toList).isSome
  | path, value => !value.isEmpty
  | text, _ => true

namespace Switch

def name : Switch → String
  | format => "format"
  | quiet => "quiet"
  | verbose => "verbose"
  | maxFileSize => "max-file-size"
  | help => "help"
  | version => "version"
  | graphFormat => "graph-format"
  | nodeFormat => "node-format"
  | semantic => "semantic"
  | repo => "repo"
  | patches => "patches"
  | output => "output"
  | batchSize => "batch-size"
  | threads => "threads"
  | maxVariables => "max-variables"
  | extension => "extension"
  | allowPath => "allow-path"
  | blockPath => "block-path"
  | allowMerge => "allow-merge"
  | require => "require"
  | cutUnedited => "cut-unedited"
  | force => "force"

def letter? : Switch → Option Char
  | format => some 'f'
  | quiet => some 'q'
  | verbose => some 'v'
  | help => some 'h'
  | version => some 'V'
  | output => some 'o'
  | _ => none

def kind : Switch → ValueKind
  | format =>
    .oneOf [⟨"human", "Human-readable text (default)"⟩, ⟨"json", "A single JSON object on stdout"⟩]
  | graphFormat =>
    .oneOf [⟨"tree", "One tree per patch, rooted at ROOT"⟩,
      ⟨"graph", "ROOT removed; top-level nodes become roots"⟩]
  | nodeFormat =>
    .oneOf [⟨"labeled", "Diff type, code type, and label text"⟩,
      ⟨"type", "Diff type and code type only"⟩]
  | maxFileSize | batchSize | threads | maxVariables => .number
  | repo | patches | output => .path
  | extension | allowPath | blockPath | require => .text
  | quiet | verbose | help | version | semantic | allowMerge | cutUnedited | force => .nothing

/-- Whether a switch may stand several times; its values are then gathered. -/
def isRepeatable : Switch → Bool
  | extension | allowPath | blockPath | require => true
  | _ => false

/-- The variable of the environment that a value is taken from when the line gives none. -/
def environmentName? : Switch → Option String
  | maxFileSize => some "VARDIFF_MAX_FILE_SIZE"
  | batchSize => some "VARDIFF_BATCH_SIZE"
  | threads => some "VARDIFF_THREADS"
  | maxVariables => some "VARDIFF_MAX_VARIABLES"
  | _ => none

/-- The value that counts when neither the line nor the environment gives one. -/
def defaultValue? : Switch → Option String
  | format => some "human"
  | graphFormat => some "tree"
  | nodeFormat => some "labeled"
  | maxFileSize => some "268435456"
  | batchSize => some "1000"
  | maxVariables => some "16"
  | _ => none

end Switch

abbrev Environment := String → Option String

def Environment.value? (env : Environment) (s : Switch) : Option String :=
  s.environmentName?.bind env

end Variability.CommandLine
