import Variability.CommandLine.Topic

/-!
Help texts. A help text says what a topic is about and how it is used, and then lists commands,
operands and switches: in brief with a line for each, or in full with a block for each. Behind a
switch stand the variable of the environment with its value, the default and the choices.
-/

namespace Variability.CommandLine

inductive HelpDetail where
  | brief
  | full
  deriving DecidableEq, Repr

def Verb.summary : Verb → String
  | parse => "Parse one file diff and print its line graph"
  | classify => "Classify every artifact of a file diff by its edit pattern"
  | importGraph => "Decode a line-graph file and print per-tree statistics"
  | mine => "Mine a history for variability-aware edits"
  | summarize => "Combine metadata snapshot files into one"

namespace Switch

def summary (detail : HelpDetail) : Switch → String
  | format => "Output format: human (default) or json"
  | quiet => "Only log errors (incompatible with `--verbose`)"
  | verbose => "Log per-commit and per-patch detail (incompatible with `--quiet`)"
  | maxFileSize => "Maximum input file size in bytes"
  | help =>
    match detail with
    | .brief => "Print help (see more with '--help')"
    | .full => "Print help (see a summary with '-h')"
  | version => "Print version"
  | graphFormat => "Shape of the trees: tree (default) or graph"
  | nodeFormat => "Node label encoding: labeled (default) or type"
  | semantic =>
    "Also report semantic patterns (such as a moved `#else`) found on directive lines"
  | repo => "Git working copy to mine"
  | patches => "Directory of `<commit>.diff` files to mine instead of a git repository"
  | output => "Directory receiving the batch line graphs and metadata"
  | batchSize => "Commits per batch"
  | threads => "Worker threads (default: available parallelism)"
  | maxVariables =>
    "Largest number of distinct literals per satisfiability query; patches needing more are " ++
    "logged and counted as classification failures"
  | extension => "Only mine files with this extension (repeatable; default: C family)"
  | allowPath => "Only mine paths fully matching this regex (repeatable)"
  | blockPath => "Never mine paths fully matching this regex (repeatable)"
  | allowMerge => "Include merge commits"
  | require =>
    "Export only trees meeting this criterion (repeatable): not-empty, " ++
    "more-than-one-artifact, consistent, edits-to-variability"
  | cutUnedited => "Remove subtrees without edits before filtering"
  | force => "Mine even if the output directory already holds a total result"

def paragraphs (detail : HelpDetail) (s : Switch) : List String :=
  match detail, s with
  | .full, maxFileSize =>
    ["Maximum input file size in bytes.",
      "Can also be set via the `VARDIFF_MAX_FILE_SIZE` environment variable. " ++
      "Default: 268435456 (256 MB)."]
  | _, _ => [s.summary detail]

def valueName (s : Switch) : String :=
  match s with
  | repo | patches | output => "DIR"
  | extension => "EXT"
  | allowPath | blockPath => "REGEX"
  | require => "CRITERION"
  | _ => String.ofList (s.name.toList.map fun c => if c = '-' then '_' else c.toUpper)

def label (s : Switch) : String :=
  let letter := s.letter?.elim "    " fun c => s!"-{c}, "
  let value := if s.kind = .nothing then "" else s!" <{s.valueName}>"
  s!"{letter}--{s.name}{value}"

def choices (s : Switch) : List Choice :=
  match s.kind with
  | .oneOf choices => choices
  | .nothing | .number | .path | .text => []

/-- Where the value of a switch comes from when the line does not give it. -/
def sources (env : Environment) (s : Switch) : List String :=
  let setting := s.environmentName?.map fun name =>
    let value := (env name).getD ""
    s!"[env: {name}={value}]"
  setting.toList ++ (s.defaultValue?.map fun value => s!"[default: {value}]").toList

end Switch

structure HelpEntry where
  label : String
  paragraphs : List String
  choices : List Choice
  sources : List String

namespace HelpEntry

def ofOperand (o : Operand) : HelpEntry :=
  ⟨o.name, [o.summary], [], []⟩

def ofSwitch (detail : HelpDetail) (env : Environment) (s : Switch) : HelpEntry :=
  ⟨s.label, s.paragraphs detail, s.choices, s.sources env⟩

end HelpEntry

def padded (width : Nat) (text : String) : String :=
  text ++ String.ofList (List.replicate (width - text.length) ' ')

def widest (texts : List String) : Nat :=
  (texts.map String.length).foldl max 0

namespace HelpEntry

def briefLine (width : Nat) (e : HelpEntry) : String :=
  let offered :=
    if e.choices.isEmpty then []
    else
      let names := ", ".intercalate (e.choices.map Choice.name)
      [s!"[possible values: {names}]"]
  let told := " ".intercalate (e.paragraphs ++ e.sources ++ offered)
  s!"  {padded width e.label}  {told}"

def indent : String :=
  "          "

/-- The choices of an entry, one a line, with a blank line before. -/
def choiceLines (e : HelpEntry) : List String :=
  let width := widest (e.choices.map Choice.name) + 1
  let line (c : Choice) : String :=
    let name := padded width (c.name ++ ":")
    s!"{indent}- {name} {c.meaning}"
  if e.choices.isEmpty then []
  else "" :: (indent ++ "Possible values:") :: e.choices.map line

/-- An entry as a block of lines. Lines between the paragraphs are indented too. -/
def fullLines (e : HelpEntry) : List String :=
  let paragraphs := (e.paragraphs.map fun p => [indent ++ p]).intersperse [indent]
  let sources := if e.sources.isEmpty then [] else indent :: e.sources.map (indent ++ ·)
  s!"  {e.label}" :: (paragraphs.flatten ++ e.choiceLines ++ sources)

end HelpEntry

def sectionLines (detail : HelpDetail) (heading : String) (entries : List HelpEntry) :
    List String :=
  let lines :=
    match detail with
    | .brief => entries.map (·.briefLine (widest (entries.map HelpEntry.label)))
    | .full => ((entries.map HelpEntry.fullLines).intersperse [""]).flatten
  if entries.isEmpty then [] else "" :: heading :: lines

namespace Topic

def about (detail : HelpDetail) : Topic → List String
  | program =>
    match detail with
    | .brief => ["Variability-aware diff miner"]
    | .full =>
      ["Parses C preprocessor edits into variation diff trees, classifies",
        "them by edit pattern, and mines whole histories in parallel batches."]
  | command verb => [verb.summary]
  | help => ["Print this message or the help of the given subcommand(s)"]

def usage : Topic → List String
  | program => ["[OPTIONS]", "<COMMAND>"]
  | command .mine => [Verb.mine.name, "[OPTIONS]", "--output <DIR>"]
  | command verb =>
    [verb.name, "[OPTIONS]"] ++ ((command verb).operand?.map Operand.name).toList
  | help => [helpName, "[COMMAND]..."]

def commandLines : List String :=
  let entries := Verb.all.map fun verb => (verb.name, verb.summary)
  let entries := entries ++ [(helpName, " ".intercalate (help.about .brief))]
  let width := widest (entries.map Prod.fst)
  "" :: "Commands:" :: entries.map fun (name, told) => s!"  {padded width name}  {told}"

/-- The help on a topic. A topic without switches has nothing to tell beyond the brief form. -/
def helpText (t : Topic) (detail : HelpDetail) (env : Environment) : String :=
  let detail := if t.switches.isEmpty then .brief else detail
  let usage := "Usage: " ++ " ".intercalate ("vardiff" :: t.usage)
  let commands := if t = program then commandLines else []
  let operands := sectionLines detail "Arguments:" (t.operand?.map HelpEntry.ofOperand).toList
  let switches := sectionLines detail "Options:" (t.switches.map (HelpEntry.ofSwitch detail env))
  let lines := t.about detail ++ ["", usage] ++ commands ++ operands ++ switches
  String.join (lines.map (· ++ "\n"))

end Topic

def versionText : String :=
  "vardiff 0.1.0\n"

end Variability.CommandLine
