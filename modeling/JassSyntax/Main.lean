import JassSyntax.Tool.Run

/-!
# The command line

The tool on the files of the machine. What a run prints and its status are those of `runTool`.
-/

namespace JassSyntax

/-- The number of a refusal, which the machine may give with its sign turned. -/
def refusalNumber (code : UInt32) : Nat := if code < 0x80000000 then code.toNat else (-code).toNat

/-- A refusal of the machine. -/
def FileFault.ofError : IO.Error → FileFault
  | .noFileOrDirectory .. => .notFound
  | .alreadyExists .. => .alreadyExists
  | .inappropriateType _ code _ =>
    if refusalNumber code = 21 then .isDirectory else .notDirectory
  | .permissionDenied _ code message => .other (refusalNumber code) "PermissionDenied" message
  | error => .other 0 "Other" (toString error)

/-- Answers with the refusal if the machine refuses. -/
def attempted {α : Type} (action : IO α) : IO (Except FileFault α) := do
  try
    return .ok (← action)
  catch error => return .error (.ofError error)

/-- Whether a path leads to something of the wanted type. The empty path leads nowhere. -/
def leadsTo (wanted : IO.FS.FileType) (path : String) : IO Bool := do
  if path.isEmpty then return false
  let place := (← IO.currentDir) / path
  try
    return (← place.metadata).type == wanted
  catch _ => return false

/-- The files of the machine. -/
def machine : FileSystem IO where
  isFile := leadsTo .file
  isDirectory := leadsTo .dir
  read path := attempted do return (← IO.FS.readBinFile path).toList
  names path := attempted do
    let entries ← ((← IO.currentDir) / path).readDir
    return (entries.map IO.FS.DirEntry.fileName).toList
  makeDirectory path := attempted (IO.FS.createDir path)
  write path text := attempted (IO.FS.writeFile path text)

end JassSyntax

open JassSyntax in
def main (arguments : List String) : IO UInt32 := do
  let env : Environment := {
    settingsFile := ← IO.getEnv "VJASS_CONFIG"
    home := ← IO.getEnv "HOME" }
  let outcome ← runTool machine env arguments
  IO.print outcome.printed.out
  IO.eprint outcome.printed.err
  return outcome.status.toUInt32
