import Variability.CommandLine.Program

/-!
The program: its commands on the files, the environment and the standard streams of a process.
-/

namespace Variability.CommandLine

def FileError.ofSystem (e : IO.Error) : FileError :=
  match e with
  | .noFileOrDirectory .. => .notFound
  | .permissionDenied .. => .permissionDenied
  | .alreadyExists .. => .exists
  | .inappropriateType _ code _ =>
    if code = 21 then .isDirectory else if code = 20 then .notDirectory else .other (toString e)
  | .invalidArgument _ code _ => if code = 36 then .nameTooLong else .other (toString e)
  | _ => .other (toString e)

def attempt {α : Type} (action : IO α) : IO (Except FileError α) := do
  try return .ok (← action)
  catch e => return .error (.ofSystem e)

def entryOf (path : String) : IO.FS.DirEntry :=
  ⟨path, ""⟩

/-- Reads a stream to its end, or until it gave `limit` bytes. -/
partial def readStream (stream : IO.FS.Stream) (limit : Nat) (done : ByteArray) : IO ByteArray := do
  if limit ≤ done.size then return done
  else
    let piece ← stream.read (min 65536 (limit - done.size)).toUSize
    if piece.isEmpty then return done else readStream stream limit (done ++ piece)

def systemHost : Host IO where
  fileSize path := attempt do return (← (entryOf path).root.metadata).byteSize.toNat
  readFile path := attempt do return (← IO.FS.readBinFile path).toList
  listDirectory path := attempt do
    return (← (entryOf path).root.readDir).toList.map (·.fileName)
  isFile path := do
    return (← (entryOf path).root.pathExists) && !(← (entryOf path).root.isDir)
  makeDirectory path := attempt (IO.FS.createDirAll path)
  writeFile path contents := attempt (IO.FS.writeFile path contents)
  readInput limit := attempt do
    return (← readStream (← IO.getStdin) limit .empty).toList
  millis := IO.monoMsNow

def readEnvironment : IO Environment := do
  let names := [Switch.maxFileSize, .batchSize, .threads, .maxVariables].filterMap
    Switch.environmentName?
  let found ← names.filterMapM fun name => do
    return (← IO.getEnv name).map fun value => (name, value)
  return fun name => found.lookup name

def report (env : Environment) : Ending → IO Unit
  | .done output => IO.print output
  | .misused _ => IO.eprint (Topic.program.helpText .brief env)
  | .failed failure => IO.eprintln failure.message
  | .faulted fault => IO.eprintln fault.message

def runOnSystem (arguments : List String) : IO UInt32 := do
  let env ← readEnvironment
  let ending ← run systemHost env arguments
  report env ending
  return ending.exitCode.toUInt32

end Variability.CommandLine

def main (arguments : List String) : IO UInt32 :=
  Variability.CommandLine.runOnSystem arguments
