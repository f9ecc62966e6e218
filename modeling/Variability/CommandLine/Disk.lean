import Variability.CommandLine.Host
import Variability.Text.Utf8

/-!
A disk in memory. It holds files and directories by the names on the way to them from the top, and
offers them to a program as a host in a state monad. Time stands still on it.
-/

namespace Variability.CommandLine

inductive DiskItem where
  | file (bytes : List UInt8)
  | directory
  deriving DecidableEq, Repr

abbrev Place := List String

structure Disk where
  /-- Items by place; the top itself is a directory and not listed. -/
  items : List (Place × DiskItem)
  input : List UInt8
  deriving Repr

namespace Disk

def empty (input : List UInt8) : Disk :=
  ⟨[], input⟩

def item? (d : Disk) (p : Place) : Option DiskItem :=
  if p.isEmpty then some .directory else d.items.lookup p

def put (d : Disk) (p : Place) (i : DiskItem) : Disk :=
  { d with items := d.items.filter (·.1 ≠ p) ++ [(p, i)] }

/-- The size that is told of a directory. -/
def directorySize : Nat := 4096

/-- The longest name of an item, and the longest path, in bytes. -/
def maxNameSize : Nat := 255

def maxPathSize : Nat := 4095

/-- Follows names from a place. Every item on the way has to be a directory; what stands at the
end, if anything, is not looked at. -/
def follow (d : Disk) (here : Place) : List String → Except FileError Place
  | [] => .ok here
  | name :: names =>
    match d.item? here with
    | none => .error .notFound
    | some (.file _) => .error .notDirectory
    | some .directory =>
      if name = "" || name = "." then follow d here names
      else if name = ".." then
        if here.isEmpty then .error .notFound else follow d here.dropLast names
      else if maxNameSize < name.utf8ByteSize then .error .nameTooLong
      else follow d (here ++ [name]) names

def namesOf (path : String) : List String :=
  path.splitOn "/"

def place (d : Disk) (path : String) : Except FileError Place :=
  if maxPathSize < path.utf8ByteSize then .error .nameTooLong
  else if path.isEmpty || path.startsWith "/" then .error .notFound
  else d.follow [] (namesOf path)

def lookUp (d : Disk) (path : String) : Except FileError (Place × DiskItem) := do
  let p ← d.place path
  match d.item? p with
  | none => .error .notFound
  | some i => return (p, i)

def fileSize (d : Disk) (path : String) : Except FileError Nat :=
  (d.lookUp path).map fun
    | (_, .file bytes) => bytes.length
    | (_, .directory) => directorySize

def readFile (d : Disk) (path : String) : Except FileError (List UInt8) := do
  match ← d.lookUp path with
  | (_, .file bytes) => return bytes
  | (_, .directory) => .error .isDirectory

def namesIn (d : Disk) (p : Place) : List String :=
  d.items.filterMap fun (q, _) => if q.dropLast = p then q.getLast? else none

def listDirectory (d : Disk) (path : String) : Except FileError (List String) := do
  match ← d.lookUp path with
  | (p, .directory) => return d.namesIn p
  | (_, .file _) => .error .notDirectory

def isFile (d : Disk) (path : String) : Bool :=
  match d.lookUp path with
  | .ok (_, .file _) => true
  | .ok (_, .directory) | .error _ => false

def isDirectory (d : Disk) (names : List String) : Bool :=
  match d.follow [] names with
  | .ok p => d.item? p = some .directory
  | .error _ => false

def makeOne (d : Disk) (names : List String) : Except FileError Disk := do
  let above ← d.follow [] names.dropLast
  match d.item? above, names.getLast? with
  | none, _ => .error .notFound
  | some (.file _), _ => .error .notDirectory
  | some .directory, none => .error .exists
  | some .directory, some name =>
    if name = "." || name = ".." then .error .exists
    else
      let p ← d.follow above [name]
      match d.item? p with
      | some _ => .error .exists
      | none => return d.put p .directory

def makeOrFind (d : Disk) (names : List String) : Except FileError Disk :=
  match d.makeOne names with
  | .ok d => .ok d
  | .error e => if d.isDirectory names then .ok d else .error e

/-- Makes the first of some directories of which each lies in the next one, and makes a next one
before only where that is missing. -/
def makeNested (d : Disk) : List (List String) → Except FileError Disk
  | [] => .ok d
  | names :: above =>
    match d.makeOne names with
    | .error .notFound => do (← d.makeNested above).makeOrFind names
    | .ok d => .ok d
    | .error e => if d.isDirectory names then .ok d else .error e

/-- Names, and the names of all directories above, the nearest first. A dot at the end does not
count as a directory of its own. -/
def nested (names : List String) : List (List String) :=
  let starts := (List.range names.length).map fun i => names.take (i + 1)
  let above := (starts.filter fun names => names.getLast? ≠ some ".").dropLast
  names :: above.reverse

def makeDirectory (d : Disk) (path : String) : Except FileError Disk :=
  if maxPathSize < path.utf8ByteSize then .error .nameTooLong
  else if path.startsWith "/" then .error .permissionDenied
  else d.makeNested (nested ((namesOf path).filter (· ≠ "")))

def writeFile (d : Disk) (path : String) (bytes : List UInt8) : Except FileError Disk := do
  let p ← d.place path
  match d.item? p, d.item? p.dropLast with
  | some .directory, _ => .error .isDirectory
  | _, some .directory => return d.put p (.file bytes)
  | _, some (.file _) => .error .notDirectory
  | _, none => .error .notFound

/-- Puts a file, or a directory if the name ends in a slash, on a disk, with the directories that
lead there. -/
def install (d : Disk) (name : String) (bytes : List UInt8) : Disk :=
  let names := (namesOf name).filter (!·.isEmpty)
  let above := if name.endsWith "/" then names else names.dropLast
  let places := (List.range above.length).map fun i => above.take (i + 1)
  let d := places.foldl (fun d p => if (d.item? p).isSome then d else d.put p .directory) d
  if name.endsWith "/" then d else d.put names (.file bytes)

/-- The files below a directory, named by the way from there, with their text. -/
def textsBelow (d : Disk) (path : String) : List (String × String) :=
  match d.lookUp path with
  | .error _ => []
  | .ok (top, _) =>
    d.items.filterMap fun
      | (_, .directory) => none
      | (p, .file bytes) =>
        if top.isPrefixOf p && top ≠ p then
          let name := "/".intercalate (p.drop top.length)
          some (name, ((Text.Utf8.decode bytes).toOption.map String.ofList).getD "")
        else none

def update (f : Disk → Except FileError Disk) : StateM Disk (Except FileError Unit) :=
  fun d =>
    match f d with
    | .error e => (.error e, d)
    | .ok d => (.ok (), d)

def host : Host (StateM Disk) where
  fileSize path := return (← get).fileSize path
  readFile path := return (← get).readFile path
  listDirectory path := return (← get).listDirectory path
  isFile path := return (← get).isFile path
  makeDirectory path := update (·.makeDirectory path)
  writeFile path contents := update (·.writeFile path contents.toUTF8.toList)
  readInput limit := return .ok ((← get).input.take limit)
  millis := return 0

end Disk

end Variability.CommandLine
