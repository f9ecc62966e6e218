/-!
What a program asks of its surroundings: files, directories, the standard input, a clock. A host
offers these in some monad. Its errors are the answers of the operating system, and keep its words.
-/

namespace Variability.CommandLine

inductive FileError where
  | notFound
  | permissionDenied
  | exists
  | notDirectory
  | isDirectory
  | nameTooLong
  | other (text : String)
  deriving DecidableEq, Repr

def FileError.text : FileError → String
  | notFound => "No such file or directory (os error 2)"
  | permissionDenied => "Permission denied (os error 13)"
  | .exists => "File exists (os error 17)"
  | notDirectory => "Not a directory (os error 20)"
  | isDirectory => "Is a directory (os error 21)"
  | nameTooLong => "File name too long (os error 36)"
  | other text => text

structure Host (m : Type → Type) where
  /-- The size of a file in bytes. -/
  fileSize : String → m (Except FileError Nat)
  readFile : String → m (Except FileError (List UInt8))
  /-- The names in a directory, in any order. -/
  listDirectory : String → m (Except FileError (List String))
  /-- Whether there is a file, and no directory, at a path. -/
  isFile : String → m Bool
  /-- Makes a directory and those above it; one that is there is left as it is. -/
  makeDirectory : String → m (Except FileError Unit)
  writeFile : (path contents : String) → m (Except FileError Unit)
  /-- The standard input, of which no more than `limit` bytes are asked for. -/
  readInput : (limit : Nat) → m (Except FileError (List UInt8))
  /-- Milliseconds since some moment. -/
  millis : m Nat

def join (directory name : String) : String :=
  if name.startsWith "/" || directory.isEmpty then name
  else if directory.endsWith "/" then directory ++ name
  else directory ++ "/" ++ name

end Variability.CommandLine
