import Variability.CommandLine.Switch

/-!
Topics of the command line: the program as a whole, its commands, and the command that gives help
on the others. Each topic has its own switches and operands.
-/

namespace Variability.CommandLine

inductive Verb where
  | parse
  | classify
  | importGraph
  | mine
  | summarize
  deriving DecidableEq, Repr

namespace Verb

def all : List Verb :=
  [parse, classify, importGraph, mine, summarize]

def name : Verb → String
  | parse => "parse"
  | classify => "classify"
  | importGraph => "import"
  | mine => "mine"
  | summarize => "summarize"

def ofName? (text : String) : Option Verb :=
  all.find? (·.name = text)

end Verb

structure Operand where
  name : String
  summary : String
  kind : ValueKind
  /-- Whether several may stand there. -/
  gathers : Bool

/-- A part of the command line with switches and help of its own. -/
inductive Topic where
  | program
  | command (verb : Verb)
  | help
  deriving DecidableEq, Repr

namespace Topic

def helpName : String := "help"

/-- The switches of a topic, in the order in which its help lists them. Those for the format, the
loudness and the size of files count for every command and stand also before it. -/
def switches : Topic → List Switch
  | program => [.format, .quiet, .verbose, .maxFileSize, .help, .version]
  | command .parse | command .importGraph =>
    [.graphFormat, .nodeFormat, .format, .quiet, .verbose, .maxFileSize, .help]
  | command .classify => [.semantic, .format, .quiet, .verbose, .maxFileSize, .help]
  | command .mine =>
    [.repo, .patches, .output, .batchSize, .threads, .format, .maxVariables, .extension, .quiet,
      .allowPath, .verbose, .blockPath, .maxFileSize, .allowMerge, .require, .cutUnedited, .force,
      .graphFormat, .nodeFormat, .help]
  | command .summarize => [.format, .quiet, .verbose, .maxFileSize, .help]
  | help => []

def operand? : Topic → Option Operand
  | program | command .mine => none
  | command .parse | command .classify =>
    some ⟨"<PATCH>", "Path to a unified diff of one file, or `-` for stdin", .text, false⟩
  | command .importGraph =>
    some ⟨"<LINEGRAPH>", "Path to a line-graph file, or `-` for stdin", .text, false⟩
  | command .summarize =>
    some ⟨"<METADATA>...", "Metadata files written by `vardiff mine`", .path, true⟩
  | help => some ⟨"[COMMAND]...", "Print help for the subcommand(s)", .text, true⟩

end Topic

end Variability.CommandLine
