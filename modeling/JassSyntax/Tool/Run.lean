import JassSyntax.Files.System
import JassSyntax.Json.Encode
import JassSyntax.Problem.Excerpt
import JassSyntax.Settings.File
import JassSyntax.Tool.Arguments
import JassSyntax.Tree.Dump

/-!
# Running commands

What each command reads and writes. A run answers with all that it printed and an exit status; what
was printed before a failure stays.
-/

namespace JassSyntax

/-- Why a command is given up. -/
inductive Failure where
  | fileNotFound (what : String)
  | files (fault : FileFault)
  /-- A source file is no text. -/
  | encoding (path : String) (fault : Text.Malformed)
  /-- A settings file is faulty, in the line and column given. -/
  | settings (path message : String) (line column : Nat)
  deriving DecidableEq, Repr

namespace Failure

/-- The failure as it is shown. -/
def describe : Failure → String
  | .fileNotFound what => "FileNotFound(" ++ Text.quoted what ++ ")"
  | .files fault => "IO(" ++ fault.describe ++ ")"
  | .encoding path fault =>
    let shown := Text.quotedPath path
    let index := fault.validUpTo
    let length := match fault.length with
      | some n => s!"Some({n})"
      | none => "None"
    s!"Encoding \x7b path: {shown}, source: Utf8Error "
      ++ s!"\x7b valid_up_to: {index}, error_len: {length} \x7d \x7d"
  | .settings path message line column =>
    let shown := Text.quotedPath path
    let quoted := Text.quoted message
    s!"Config \x7b path: {shown}, source: Error({quoted}, line: {line}, column: {column}) \x7d"

end Failure

/-- What a run has printed so far. -/
structure Printed where
  out : String := ""
  err : String := ""
  deriving DecidableEq, Repr, Inhabited

/-- How a run ended, and what it printed. -/
structure Outcome where
  status : UInt8
  printed : Printed
  deriving DecidableEq, Repr, Inhabited

/-- The variables that a run looks at. -/
structure Environment where
  /-- The settings file to be used, whether or not it exists. -/
  settingsFile : Option String := none
  /-- The directory of the user. -/
  home : Option String := none
  deriving DecidableEq, Repr, Inhabited

/-- A part of a run, which may print, ask the file system, and give up. -/
abbrev Run (m : Type → Type) := ExceptT Failure (StateT Printed m)

namespace Run

variable {m : Type → Type} [Monad m]

/-- Prints a text. -/
def print (s : String) : Run m Unit := modify fun p => { p with out := p.out ++ s }

/-- Prints a text to where problems are reported. -/
def report (s : String) : Run m Unit := modify fun p => { p with err := p.err ++ s }

/-- Asks the file system. -/
def ask {α : Type} (question : m α) : Run m α := liftM question

/-- Asks the file system, and gives up if it refuses. -/
def demand {α : Type} (question : m (Except FileFault α)) : Run m α := do
  match ← ask question with
  | .ok a => return a
  | .error fault => throw (.files fault)

/-! ## Settings -/

/-- Where the settings of the user lie. -/
def userSettings (env : Environment) : String :=
  Path.join (Path.join (env.home.getD ".") ".vjass") "config.json"

/-- Where settings lie in the directory of the run. -/
def localSettings : String := "vjass.json"

/-- The settings file in use, if there is one: that of the environment, that of the directory, or
that of the user. -/
def settingsPath (fs : FileSystem m) (env : Environment) : Run m (Option String) := do
  match env.settingsFile with
  | some path => return some path
  | none =>
    if ← ask (fs.isFile localSettings) then return some localSettings
    if ← ask (fs.isFile (userSettings env)) then return some (userSettings env)
    return none

/-- The settings in effect. -/
def settings (fs : FileSystem m) (env : Environment) : Run m Settings := do
  match ← settingsPath fs env with
  | none => return {}
  | some path =>
    match Text.ofBytes (← demand (fs.read path)) with
    | .error _ => throw (.files .notText)
    | .ok text =>
      match Settings.ofText text with
      | .ok s => return s
      | .error fault =>
        let (line, column) := fault.place text
        throw (.settings path fault.cause.message line column)

/-- Writes the default settings for the user, unless there is something in their place. -/
def initSettings (fs : FileSystem m) (env : Environment) : Run m Unit := do
  let path := userSettings env
  if ← ask (fs.present path) then
    print s!"Config file already exists at: {path}\nRemove it to reinitialize.\n"
  else
    let directory := Path.parent path
    demand (fs.makeDirectories (Path.parts directory).length directory)
    demand (fs.write path ({} : Settings).pretty)
    print s!"Initialized new config file at: {path}\n"

/-! ## Source files -/

/-- No path that is followed has more parts. -/
def longestPath : Nat := 4096

/-- The source files in a directory and up to `fuel` directories below it, in the order of names. -/
def filesBelow (fs : FileSystem m) (s : Settings) : Nat → String → Run m (List String)
  | 0, _ => return []
  | fuel + 1, directory => do
    let names ← demand (fs.names directory)
    let found ← (names.mergeSort (· ≤ ·)).mapM fun name => do
      let path := Path.join directory name
      if ← ask (fs.isDirectory path) then filesBelow fs s fuel path
      else return if Path.hasExtension s.extensions path then [path] else []
    return found.flatten

/-- The source files that a path stands for: itself, or those in the directory that it leads to. -/
def filesAt (fs : FileSystem m) (s : Settings) (path : String) : Run m (List String) := do
  if ← ask (fs.isDirectory path) then
    match ← filesBelow fs s longestPath path with
    | [] =>
      let extensions := ", ".intercalate s.extensions
      throw (.fileNotFound s!"No source files ({extensions}) found in: {path}")
    | found => return found
  else if ← ask (fs.isFile path) then return [path]
  else throw (.fileNotFound s!"No such file or directory: {path}")

/-- The source files that several paths stand for. -/
def filesAtAll (fs : FileSystem m) (s : Settings) (paths : List String) : Run m (List String) := do
  return (← paths.mapM (filesAt fs s)).flatten

/-- The text of a source file. -/
def source (fs : FileSystem m) (path : String) : Run m String := do
  match ← ask (fs.read path) with
  | .error .notFound => throw (.fileNotFound path)
  | .error fault => throw (.files fault)
  | .ok bytes =>
    match Text.ofBytes bytes with
    | .ok text => return text
    | .error fault => throw (.encoding path fault)

/-- Reports that a file is being worked on, if progress is wanted. -/
def progress (s : Settings) (activity path : String) : Run m Unit :=
  if s.verbose then report s!"{activity} {path}\n" else return

/-- Reports problems of a file, as many as the settings allow. Tells how many there are. -/
def problems (s : Settings) (path text : String) (p : Parse) : Run m Nat := do
  let all := p.problems
  let shown := (s.maxErrors.map UInt64.toNat).getD all.length
  (all.take shown).forM fun problem => report (problem.excerpt path text)
  let more := all.length - shown
  if 0 < more then report s!"... {more} more errors in {path}\n"
  return all.length

/-! ## Commands -/

/-- The status of a command that found so many problems. -/
def statusOf (count : Nat) : UInt8 := if count = 0 then 0 else 1

/-- A tree in one of the forms. -/
def formatted (format : OutputFormat) (text : String) (p : Parse) : String :=
  match format with
  | .tree => p.tree.dump text
  | .sexp => p.tree.sexp ++ "\n"
  | .json => p.toJson.pretty ++ "\n"

/-- Prints the trees of source files. -/
def parse (fs : FileSystem m) (s : Settings) (paths : List String) (format : OutputFormat) :
    Run m UInt8 := do
  (← filesAtAll fs s paths).forM fun path => do
    progress s "Parsing" path
    let text ← source fs path
    let p := JassSyntax.parse text
    print (formatted format text p)
    let _ ← problems s path text p
  return 0

/-- A line of a token listing. -/
def tokenLine (t : Token) : String :=
  let line := t.span.start.line + 1
  let column := t.span.start.column + 1
  s!"{line}:{column} {t.kind.name} " ++ Text.quoted t.text ++ "\n"

/-- Prints the tokens of a file. -/
def tokens (fs : FileSystem m) (path : String) (json : Bool) : Run m UInt8 := do
  let text ← source fs path
  let (tokens, errors) := scan text
  if json then
    let listing := Json.object [("tokens", .array (tokens.map Token.toJson)),
      ("errors", .array (errors.map ScanError.toJson))]
    print (listing.sorted.pretty ++ "\n")
  else
    print (String.join (tokens.map tokenLine))
    errors.forM fun e => report ((Problem.scan e).excerpt path text)
  return statusOf errors.length

/-- Prints what is wrong with source files. -/
def check (fs : FileSystem m) (s : Settings) (paths : List String) : Run m UInt8 := do
  let files ← filesAtAll fs s paths
  let counts ← files.mapM fun path => do
    progress s "Checking" path
    let text ← source fs path
    problems s path text (JassSyntax.parse text)
  let total := counts.foldl (· + ·) 0
  let failed := (counts.filter (0 < ·)).length
  let number := files.length
  print s!"Checked {number} file(s): {total} error(s) in {failed} file(s)\n"
  return statusOf total

/-- A line of an outline. -/
def definitionLine (d : Definition) : String :=
  s!"  {d.line}:{d.column} {d.kind.label} {d.name}\n"

/-- The outline of a file. -/
def outlined (json : Bool) (path : String) (definitions : List Definition) : String :=
  if json then
    let listing := Json.object [("file", .string path),
      ("items", .array (definitions.map Definition.toJson))]
    listing.sorted.pretty ++ "\n"
  else path ++ "\n" ++ String.join (definitions.map definitionLine)

/-- Prints what source files define, file by file or all together. -/
def outline (fs : FileSystem m) (s : Settings) (paths : List String) (json summary : Bool) :
    Run m UInt8 := do
  let files ← filesAtAll fs s paths
  let names ← files.foldlM (fun names path => do
    progress s "Analyzing" path
    let text ← source fs path
    let tree := (JassSyntax.parse text).tree
    if summary then return names.add tree text
    print (outlined json path (tree.outline text))
    return names) ({} : Names)
  if summary then print (if json then names.toJson.pretty ++ "\n" else names.summary)
  return 0

/-- Looks after the settings. -/
def manage (fs : FileSystem m) (env : Environment) (s : Settings) (action : SettingsAction) :
    Run m UInt8 := do
  match action with
  | .show => print (s.pretty ++ "\n")
  | .init => initSettings fs env
  | .path =>
    match ← settingsPath fs env with
    | some path => print (path ++ "\n")
    | none => print "No config file found; using defaults\n"
  return 0

/-- Does what is asked for. -/
def command (fs : FileSystem m) (env : Environment) (i : Invocation) : Run m UInt8 := do
  let s ← settings fs env
  let s := { s with verbose := s.verbose || i.verbose }
  match i.command with
  | .parse paths format => parse fs s paths (format.getD s.format)
  | .tokens path json => tokens fs path json
  | .check paths => check fs s paths
  | .outline paths json summary => outline fs s paths json summary
  | .settings action => manage fs env s action

end Run

/-- What the tool is asked with. -/
def usage : String :=
  "usage: jass-syntax [-v] parse [-f tree|sexp|json] PATH...\n"
    ++ "       jass-syntax [-v] tokens [--json] PATH\n"
    ++ "       jass-syntax [-v] check PATH...\n"
    ++ "       jass-syntax [-v] outline [--json] [--summary] PATH...\n"
    ++ "       jass-syntax [-v] config show|init|path\n"

/-- Runs the tool with its arguments. -/
def runTool {m : Type → Type} [Monad m] (fs : FileSystem m) (env : Environment)
    (arguments : List String) : m Outcome := do
  match Invocation.ofArguments? arguments with
  | none => return ⟨2, { err := usage }⟩
  | some i =>
    match ← (Run.command fs env i).run.run {} with
    | (.ok status, printed) => return ⟨status, printed⟩
    | (.error failure, printed) =>
      let shown := failure.describe
      return ⟨1, { printed with err := printed.err ++ s!"Error: {shown}\n" }⟩

end JassSyntax
