import JassSyntax.Files.System

/-!
# Files in memory

A store of files and directories, with the answers that a file system gives on them.
-/

namespace JassSyntax

/-- What a path can lead to. -/
inductive Entry where
  | file (bytes : List UInt8)
  | directory
  deriving Repr, Inhabited

/-- Files and directories by the names on the way to them. The way of no names leads to the
directory that holds everything. -/
structure Store where
  entries : List (List String × Entry) := []
  deriving Repr, Inhabited

namespace Store

/-- What stands at the end of a way. -/
def find? (s : Store) (way : List String) : Option Entry :=
  if way.isEmpty then some .directory else s.entries.lookup way

/-- Follows the parts of a path from a way on. Every part must be looked up in a directory. -/
def follow (s : Store) (way : List String) : List String → Except FileFault (List String)
  | [] => .ok way
  | part :: parts =>
    match s.find? way with
    | some .directory =>
      if part = "" ∨ part = "." then s.follow way parts
      else if part = ".." then s.follow way.dropLast parts
      else if (s.find? (way ++ [part])).isSome then s.follow (way ++ [part]) parts
      else .error .notFound
    | _ => .error .notDirectory

/-- The way that a path stands for. Only paths inside the store lead anywhere. -/
def resolve (s : Store) (path : String) : Except FileFault (List String) :=
  if path = "" ∨ path.toList.head? = some '/' then .error .notFound
  else s.follow [] (Path.parts path)

/-- What a path leads to. -/
def entry (s : Store) (path : String) : Except FileFault Entry := do
  let way ← s.resolve path
  match s.find? way with
  | some e => return e
  | none => throw .notFound

/-- The directory that the last step of a path is taken in, and that step. -/
def lastStep (s : Store) (path : String) : Except FileFault (List String × String) := do
  match (Path.steps path).reverse with
  | [] => throw .notFound
  | name :: above =>
    let way ← s.follow [] above.reverse
    match s.find? way with
    | some .directory => return (way, name)
    | _ => throw .notDirectory

/-- Puts an entry at the end of a way. -/
def put (s : Store) (way : List String) (e : Entry) : Store :=
  { s with entries := (way, e) :: s.entries.filter fun x => x.1 != way }

/-- Puts an entry at the end of a way, and directories on the way to it. -/
def putDeep (s : Store) (way : List String) (e : Entry) : Store :=
  let above := (List.range way.length).map way.take
  (above.foldl (fun s w => if (s.find? w).isSome then s else s.put w .directory) s).put way e

/-- The names of what a directory holds. -/
def namesIn (s : Store) (way : List String) : List String :=
  s.entries.filterMap fun x =>
    if x.1.dropLast = way ∧ !x.1.isEmpty then x.1.getLast? else none

def isFile (s : Store) (path : String) : Bool :=
  match s.entry path with
  | .ok (.file _) => true
  | _ => false

def isDirectory (s : Store) (path : String) : Bool :=
  match s.entry path with
  | .ok .directory => true
  | _ => false

def read (s : Store) (path : String) : Except FileFault (List UInt8) := do
  match ← s.entry path with
  | .file bytes => return bytes
  | .directory => throw .isDirectory

def names (s : Store) (path : String) : Except FileFault (List String) := do
  let way ← s.resolve path
  match s.find? way with
  | some .directory => return s.namesIn way
  | _ => throw .notDirectory

def makeDirectory (s : Store) (path : String) : Except FileFault Store := do
  let (way, name) ← s.lastStep path
  if (s.find? (way ++ [name])).isSome then throw .alreadyExists
  return s.put (way ++ [name]) .directory

def write (s : Store) (path text : String) : Except FileFault Store := do
  let (way, name) ← s.lastStep path
  match s.find? (way ++ [name]) with
  | some .directory => throw .isDirectory
  | _ => return s.put (way ++ [name]) (.file text.toUTF8.toList)

/-- Runs a change that may fail, and keeps the store if it does. -/
def attempt (change : Store → Except FileFault Store) : StateM Store (Except FileFault Unit) :=
  fun s =>
    match change s with
    | .ok s' => (.ok (), s')
    | .error fault => (.error fault, s)

/-- The file system of the store at hand. -/
def system : FileSystem (StateM Store) where
  isFile path := return (← get).isFile path
  isDirectory path := return (← get).isDirectory path
  read path := return (← get).read path
  names path := return (← get).names path
  makeDirectory path := attempt (·.makeDirectory path)
  write path text := attempt (·.write path text)

end Store

end JassSyntax
