import Variability.CommandLine.Failure
import Variability.CommandLine.Invocation
import Variability.CommandLine.Report
import Variability.Text.Utf8

/-!
The commands of the program, on any host. Input is read whole, up to a limit on its size; the
history of a directory are its patches in the order of their names, and what is mined goes to
files of another directory.
-/

namespace Variability.CommandLine

inductive Ending where
  | done (output : String)
  /-- The arguments name nothing to do. -/
  | misused (misuse : Misuse)
  | failed (failure : Failure)
  | faulted (fault : Fault)

inductive Trouble where
  | failure (failure : Failure)
  | fault (fault : Fault)

section Commands

variable {m : Type → Type} [Monad m] (host : Host m)

def textOf (source : String) (bytes : List UInt8) : Except ReadFailure String :=
  match Text.Utf8.decode bytes with
  | .error offset => .error (.invalidUtf8 source offset)
  | .ok cs => .ok (String.ofList cs)

def readFile (limit : Nat) (path : String) : m (Except ReadFailure String) := do
  match ← host.fileSize path with
  | .error e => return .error (.ofFileError path e)
  | .ok size =>
    if limit < size then return .error (.tooLarge path limit (some size))
    else
      match ← host.readFile path with
      | .error e => return .error (.ofFileError path e)
      | .ok bytes => return textOf path bytes

/-- Reads the standard input, unless it has more than `limit` bytes. -/
def readStandardInput (limit : Nat) : m (Except ReadFailure String) := do
  match ← host.readInput (limit + 1) with
  | .error e => return .error (.standardInput e)
  | .ok bytes =>
    if limit < bytes.length then return .error (.tooLarge "-" limit none)
    else return textOf "-" bytes

def readSource (limit : Nat) : InputSource → ExceptT Trouble m String
  | .standardInput =>
    ExceptT.adapt (.failure ∘ .read) (.mk (readStandardInput host limit))
  | .file path => ExceptT.adapt (.failure ∘ .read) (.mk (readFile host limit path))

def fail {α : Type} (failure : Failure) : ExceptT Trouble m α :=
  throw (.failure failure)

def parseInput (content source : String) : ExceptT Trouble m Tree :=
  match Patch.parse content source "" with
  | .error fault => throw (.fault fault)
  | .ok (.error e) => fail (.patch source e)
  | .ok (.ok t) => return t

def runParse (limit : Nat) (source : InputSource) (options : LineGraph.Options)
    (format : OutputFormat) : ExceptT Trouble m String := do
  let tree ← parseInput (← readSource host limit source) source.label
  let tree := if options.shape = .graph then tree.toGraph else tree
  let lineGraph := LineGraph.write options [tree]
  match format with
  | .human => return lineGraph
  | .json => return (ParseReport.toJson ⟨source.label, tree.size, lineGraph⟩).pretty

def sideCondition (a : Analysis) (i : Nat) (s : Side) : Query MatchError (Option Formula) :=
  if (a.tree.node i).existsOn s then (some <$> a.presence s i).adapt .presence else return none

def artifact (a : Analysis) (i : Nat) : Query MatchError Artifact := do
  let found ← a.classify EditPattern.elementary i
  let before ← sideCondition a i .before
  let after ← sideCondition a i .after
  return ⟨found, (a.tree.node i).label, before, after⟩

def artifacts (t : Tree) : Except MatchError (List Artifact) :=
  let a : Analysis := ⟨t, .bounded Oracle.defaultMaxVariables⟩
  (t.codeNodes.mapM (artifact a)).runFresh t

def runClassify (limit : Nat) (source : InputSource) (semantic : Bool) (format : OutputFormat) :
    ExceptT Trouble m String := do
  let tree ← parseInput (← readSource host limit source) source.label
  match artifacts tree with
  | .error e => fail (.classification e)
  | .ok rows =>
    let report : ClassifyReport :=
      ⟨source.label, rows, if semantic then some tree.movedElses else none⟩
    match format with
    | .human => return report.text
    | .json => return report.toJson.pretty

def runImport (limit : Nat) (source : InputSource) (options : LineGraph.Options)
    (format : OutputFormat) : ExceptT Trouble m String := do
  match LineGraph.read options (← readSource host limit source) with
  | .error e => fail (.decode source.label e)
  | .ok trees =>
    let report : ImportReport := ⟨source.label, trees.map TreeStats.ofTree⟩
    match format with
    | .human => return report.text
    | .json => return report.toJson.pretty

def resultText (result : MiningResult) : OutputFormat → String
  | .human => result.toSnapshot
  | .json => result.toJson.pretty

def combine (limit : Nat) (total : MiningResult) : List String → ExceptT Trouble m MiningResult
  | [] => return total
  | path :: paths => do
    match MiningResult.ofSnapshot (← readSource host limit (.file path)) with
    | .error e => fail (.snapshot path e)
    | .ok result =>
      match total.append result with
      | .error fault => throw (.fault fault)
      | .ok total => combine limit total paths

def patchExtension : String := "diff"

/-- The commit that a file of a directory holds: its name without the extension. -/
def commitOfName? (name : String) : Option String := do
  let stem ← Text.before? ('.' :: patchExtension.toList) name.toList
  if stem.isEmpty then none else some (String.ofList stem)

def patchNames (directory : String) : List String → m (List String)
  | [] => return []
  | name :: names => do
    let rest ← patchNames directory names
    match commitOfName? name with
    | none => return rest
    | some commit =>
      if ← host.isFile (join directory name) then return commit :: rest else return rest

def directoryHistory (limit : Nat) (directory : String) : Mining.History m where
  commits := do
    match ← host.listDirectory directory with
    | .error e => return .error s!"cannot list {directory}: {e.text}"
    | .ok names =>
      let commits ← patchNames host directory names
      return .ok ((commits.mergeSort (· ≤ ·)).map (⟨·, 1⟩))
  diff commit := do
    let path := join directory (commit.id ++ "." ++ patchExtension)
    match ← readFile host limit path with
    | .error e => return .unavailable e.message
    | .ok text => return .files (FileDiff.split text)

/-- The history of a repository would have to be asked of another program, which is not run. -/
def repositoryHistory : Mining.History m where
  commits := return .error s!"cannot run git: {FileError.notFound.text}"
  diff _ := return .unavailable s!"cannot run git: {FileError.notFound.text}"

def metadataEnd : String := ".metadata.txt"

def totalPath (directory : String) : String :=
  join directory ("totalresult" ++ metadataEnd)

def writeInto (path contents : String) : m (Except Mining.SinkError Unit) := do
  match ← host.writeFile path contents with
  | .error e => return .error ⟨path, e.text⟩
  | .ok () => return .ok ()

def directorySink (directory : String) : Mining.Sink m where
  writeBatch id lineGraph result := do
    match ← writeInto host (join directory (id ++ ".lg")) lineGraph with
    | .error e => return .error e
    | .ok () => writeInto host (join directory (id ++ metadataEnd)) result.toSnapshot
  writeTotal result := writeInto host (totalPath directory) result.toSnapshot

/-- Adds path patterns to a filter, up to the first that cannot be read. -/
def addPatterns (add : DiffFilter → String → Except PathPatternError DiffFilter)
    (f : DiffFilter) (patterns : List String) : Except Failure DiffFilter :=
  (patterns.foldlM add f).mapError .pathPattern

/-- The filter that the arguments ask for: the usual extensions unless some are named. -/
def diffFilter (arguments : MineArguments) : Except Failure DiffFilter := do
  let named := arguments.extensions.foldl DiffFilter.addExtension
    { DiffFilter.standard with changes := DiffFilter.inPlace }
  let filter := if arguments.extensions.isEmpty then DiffFilter.family else named
  let filter := { filter with allowMerge := arguments.allowMerge }
  let filter ← addPatterns DiffFilter.allowPath filter arguments.allowedPaths
  addPatterns DiffFilter.blockPath filter arguments.blockedPaths

def readCriterion (token : String) : Except Failure Criterion :=
  match Criterion.ofToken? token with
  | none => .error (.unknownCriterion token)
  | some criterion => .ok criterion

def miningConfig (arguments : MineArguments) : Except Failure Mining.Config := do
  if arguments.batchSize = 0 then throw (.notPositive .batchSize)
  if arguments.threads = some 0 then throw (.notPositive .threads)
  if arguments.maxVariables = 0 then throw (.notPositive .maxVariables)
  let filter ← diffFilter arguments
  let criteria ← arguments.required.mapM readCriterion
  return {
    batchSize := arguments.batchSize
    filter
    criteria := if criteria.isEmpty then Criterion.standard else criteria
    transforms := if arguments.cutUnedited then [.cutUnedited] else []
    options := arguments.options
    catalog := EditPattern.elementary
    maxVariables := arguments.maxVariables }

/-- Mines a history, unless the total of an earlier run is there and nothing else is asked. -/
def runMine (limit : Nat) (arguments : MineArguments) (format : OutputFormat) :
    ExceptT Trouble m String := do
  match miningConfig arguments with
  | .error failure => fail failure
  | .ok config =>
    match ← host.makeDirectory arguments.output with
    | .error e => fail (.output arguments.output e)
    | .ok () =>
      if (← host.isFile (totalPath arguments.output)) && !arguments.force then return ""
      else
        let history : Mining.History m :=
          match arguments.source with
          | .repository _ => repositoryHistory
          | .patches directory => directoryHistory host limit directory
        let sink := directorySink host arguments.output
        match ← (Mining.mine config history host.millis sink : m _) with
        | .error fault => throw (.fault fault)
        | .ok (.error e) => fail (.mining e)
        | .ok (.ok outcome) =>
          if outcome.isComplete then return resultText outcome.result format
          else fail (.workersFailed outcome.failures outcome.skipped.length)

def runCommand (i : Invocation) : ExceptT Trouble m String :=
  match i.command with
  | .parse source options => runParse host i.maxFileSize source options i.format
  | .classify source semantic => runClassify host i.maxFileSize source semantic i.format
  | .importGraph source options => runImport host i.maxFileSize source options i.format
  | .mine arguments => runMine host i.maxFileSize arguments i.format
  | .summarize files =>
    (resultText · i.format) <$> combine host i.maxFileSize .empty files

def run (env : Environment) (arguments : List String) : m Ending := do
  match readArguments env arguments with
  | .error (.question (.help topic detail)) => return .done (topic.helpText detail env)
  | .error (.question .version) => return .done versionText
  | .error (.misuse misuse) => return .misused misuse
  | .ok invocation =>
    match ← (runCommand host invocation).run with
    | .ok output => return .done output
    | .error (.failure failure) => return .failed failure
    | .error (.fault fault) => return .faulted fault

end Commands

namespace Ending

def output : Ending → String
  | done output => output
  | misused _ | failed _ | faulted _ => ""

def exitCode : Ending → Nat
  | done _ => 0
  | misused _ => 2
  | failed failure => failure.exitCode
  | faulted _ => 101

end Ending

end Variability.CommandLine
