import JassSyntax.Files.Path

/-!
# File systems

What the tool asks of the files around it. `FileSystem m` lists the questions, which are answered in
a monad `m`: by the machine, or by a `Store` kept in memory.
-/

namespace JassSyntax

/-- Why a request to a file system fails. -/
inductive FileFault where
  | notFound
  | notDirectory
  | isDirectory
  | alreadyExists
  /-- The file is no text. -/
  | notText
  /-- Any other refusal, with its number, its name and its message. -/
  | other (code : Nat) (name message : String)
  deriving DecidableEq, Repr

namespace FileFault

/-- A refusal by its number, its name and its message. -/
def numbered (code : Nat) (name message : String) : String :=
  s!"Os \x7b code: {code}, kind: {name}, message: \"{message}\" \x7d"

/-- The fault as it is shown. -/
def describe : FileFault → String
  | .notFound => numbered 2 "NotFound" "No such file or directory"
  | .notDirectory => numbered 20 "NotADirectory" "Not a directory"
  | .isDirectory => numbered 21 "IsADirectory" "Is a directory"
  | .alreadyExists => numbered 17 "AlreadyExists" "File exists"
  | .notText =>
    "Error \x7b kind: InvalidData, message: \"stream did not contain valid UTF-8\" \x7d"
  | .other code name message => numbered code name message

end FileFault

/-- What can be asked of the files. Paths are relative to where the tool is run. -/
structure FileSystem (m : Type → Type) where
  isFile : String → m Bool
  isDirectory : String → m Bool
  read : String → m (Except FileFault (List UInt8))
  /-- The names of what is in a directory, in any order. -/
  names : String → m (Except FileFault (List String))
  makeDirectory : String → m (Except FileFault Unit)
  write : String → String → m (Except FileFault Unit)

namespace FileSystem

variable {m : Type → Type} [Monad m]

/-- Whether a path leads to anything. -/
def present (fs : FileSystem m) (path : String) : m Bool := do
  if ← fs.isFile path then return true else fs.isDirectory path

/-- Makes a directory if there is none. -/
def ensureDirectory (fs : FileSystem m) (path : String) : m (Except FileFault Unit) := do
  match ← fs.makeDirectory path with
  | .ok () => return .ok ()
  | .error fault => if ← fs.isDirectory path then return .ok () else return .error fault

/-- Makes a directory and those above it, of which at most `fuel` may be missing. -/
def makeDirectories (fs : FileSystem m) : Nat → String → m (Except FileFault Unit)
  | 0, _ => return .error .notFound
  | fuel + 1, path => do
    if path = "" then return .ok ()
    match ← fs.ensureDirectory path with
    | .error .notFound =>
      match ← fs.makeDirectories fuel (Path.parent path) with
      | .ok () => fs.ensureDirectory path
      | .error fault => return .error fault
    | result => return result

end FileSystem

end JassSyntax
