import Variability.Analysis
import Variability.CommandLine.Host
import Variability.CommandLine.Switch
import Variability.Criterion
import Variability.LineGraph.Reader
import Variability.Mining
import Variability.MiningResult.Snapshot

/-!
What can go wrong when a command runs. Input that cannot be read or understood ends the program
with 2, arguments that cannot be used and runs that do not come to their end with 1.
-/

namespace Variability.CommandLine

inductive ReadFailure where
  | notFound (path : String)
  | permissionDenied (path : String)
  /-- The size is not known for the standard input. -/
  | tooLarge (source : String) (limit : Nat) (actual : Option Nat)
  | invalidUtf8 (source : String) (offset : Nat)
  | standardInput (error : FileError)
  | other (source : String) (error : FileError)
  deriving DecidableEq, Repr

namespace ReadFailure

def ofFileError (path : String) : FileError → ReadFailure
  | .notFound => notFound path
  | .permissionDenied => permissionDenied path
  | e => other path e

def message : ReadFailure → String
  | notFound path => s!"error: file not found: {path}"
  | permissionDenied path => s!"error: permission denied: {path}"
  | tooLarge source limit (some actual) =>
    s!"error: file too large: {source} is {actual} bytes, limit is {limit} bytes"
  | tooLarge source limit none =>
    s!"error: file too large: {source} exceeded limit of {limit} bytes"
  | invalidUtf8 source offset =>
    s!"error: invalid UTF-8 in {source}: first invalid byte at offset {offset}"
  | standardInput e => s!"error: failed to read stdin: {e.text}"
  | other source e => s!"error: I/O error on {source}: {e.text}"

end ReadFailure

inductive Failure where
  | read (failure : ReadFailure)
  | output (path : String) (error : FileError)
  | patch (source : String) (error : Patch.PatchError)
  | decode (source : String) (error : LineGraph.DecodeError)
  | snapshot (source : String) (error : SnapshotError)
  | notPositive (switch : Switch)
  | pathPattern (error : PathPatternError)
  | unknownCriterion (token : String)
  | classification (error : MatchError)
  | mining (error : Mining.MiningError)
  | workersFailed (failures : List Mining.WorkerFailure) (skipped : Nat)

namespace Failure

def exitCode : Failure → Nat
  | read _ | output .. | patch .. | decode .. | snapshot .. => 2
  | notPositive _ | pathPattern _ | unknownCriterion _ | classification _ | mining _
  | workersFailed .. => 1

def message : Failure → String
  | read failure => failure.message
  | output path e => s!"error: I/O error on {path}: {e.text}"
  | patch source e => s!"error: cannot parse {source}: {e.message}"
  | decode source e => s!"error: cannot decode {source}: {e.message}"
  | snapshot source e => s!"error: invalid metadata in {source}: {e.message}"
  | notPositive switch => s!"error: --{switch.name} must be positive"
  | pathPattern e => s!"error: {e.message}"
  | unknownCriterion token =>
    let known := ", ".intercalate (Criterion.all.map Criterion.token)
    s!"error: unknown criterion \"{token}\" (expected one of: {known})"
  | classification e => s!"error: classification failed: {e.message}"
  | mining e => s!"error: {e.message}"
  | workersFailed failures skipped =>
    let head := s!"error: mining aborted: {failures.length} batch(es) failed, {skipped} skipped"
    failures.foldl (fun text f => text ++ s!"\n  batch {f.batch}: {f.error.message}") head

end Failure

end Variability.CommandLine
