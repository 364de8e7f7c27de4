import JassSyntax.Settings.Basic

/-!
# Command lines

The commands of the tool and the arguments that ask for them. Options may stand before and after the
paths of a command, each at most once, and after `--` everything is a path.
-/

namespace JassSyntax

/-- What can be done about the settings. -/
inductive SettingsAction where
  | show
  | init
  | path
  deriving DecidableEq, Repr

/-- What the tool can be asked to do. -/
inductive Command where
  /-- Print the trees of source files. -/
  | parse (paths : List String) (format : Option OutputFormat)
  /-- Print the tokens of one file. -/
  | tokens (path : String) (json : Bool)
  /-- Print what is wrong with source files. -/
  | check (paths : List String)
  /-- Print what source files define. -/
  | outline (paths : List String) (json summary : Bool)
  /-- Look after the settings. -/
  | settings (action : SettingsAction)
  deriving DecidableEq, Repr

/-- A command, and whether progress is to be reported. -/
structure Invocation where
  verbose : Bool
  command : Command
  deriving DecidableEq, Repr

namespace Invocation

/-- The options that a command takes besides the one for progress. -/
structure Accepted where
  json : Bool := false
  summary : Bool := false
  format : Bool := false

/-- The arguments that have been read. -/
structure Given where
  verbose : Bool := false
  json : Bool := false
  summary : Bool := false
  format : Option OutputFormat := none
  paths : List String := []

/-- Sets an option that has not been set before. -/
def Given.set (g : Given) : String → Option Given
  | "verbose" => if g.verbose then none else some { g with verbose := true }
  | "json" => if g.json then none else some { g with json := true }
  | "summary" => if g.summary then none else some { g with summary := true }
  | _ => none

/-- Sets the format, by its name, if it has not been set before. -/
def Given.setFormat (g : Given) (name : String) : Option Given :=
  match g.format, OutputFormat.ofName? name with
  | none, some f => some { g with format := some f }
  | _, _ => none

/-- What an argument is by its first characters. -/
inductive Shape where
  | path
  /-- From here on there are only paths. -/
  | pathsOnly
  /-- An option by its name, with its value if one is given with it. -/
  | long (name : String) (value : Option String)
  /-- Options by their letters. -/
  | short (letters : List Char)

def Shape.of (argument : String) : Shape :=
  match argument.toList with
  | '-' :: '-' :: [] => .pathsOnly
  | '-' :: '-' :: cs =>
    match cs.span (· ≠ '=') with
    | (name, []) => .long (String.ofList name) none
    | (name, _ :: value) => .long (String.ofList name) (some (String.ofList value))
  | '-' :: c :: cs => .short (c :: cs)
  | _ => .path

/-- Whether a command takes an option without a value. -/
def Accepted.takes (a : Accepted) (name : String) : Bool :=
  name == "verbose" || (a.json && name == "json") || (a.summary && name == "summary")

/-- Reads letters. The last of them may ask for the next argument as its value. -/
def readLetters (a : Accepted) (g : Given) : List Char → Option (Given × Bool)
  | [] => some (g, false)
  | 'v' :: cs => do readLetters a (← g.set "verbose") cs
  | 'f' :: cs =>
    if !a.format then none
    else
      match cs with
      | [] => some (g, true)
      | '=' :: value => do return (← g.setFormat (String.ofList value), false)
      | value => do return (← g.setFormat (String.ofList value), false)
  | _ => none

/-- Adds a path, which must not be empty. -/
def Given.addPath (g : Given) (path : String) : Option Given :=
  if path = "" then none else some { g with paths := g.paths ++ [path] }

/-- Reads one argument of a command. Tells whether the next one is the value of an option. -/
def readOne (a : Accepted) (g : Given) (argument : String) : Option (Given × Bool) :=
  match Shape.of argument with
  | .path | .pathsOnly => do return (← g.addPath argument, false)
  | .short letters => readLetters a g letters
  | .long "format" none => if a.format then some (g, true) else none
  | .long "format" (some value) =>
    if a.format then do return (← g.setFormat value, false) else none
  | .long name none => if a.takes name then do return (← g.set name, false) else none
  | .long _ (some _) => none

/-- Where the reading of arguments stands. -/
inductive Reading where
  | anything
  | pathsOnly
  | format

/-- Reads the arguments of a command. -/
def readAll (a : Accepted) : Reading → Given → List String → Option Given
  | .format, _, [] => none
  | _, g, [] => some g
  | .pathsOnly, g, argument :: rest => do readAll a .pathsOnly (← g.addPath argument) rest
  | .format, g, argument :: rest => do readAll a .anything (← g.setFormat argument) rest
  | .anything, g, argument :: rest =>
    if argument = "--" then readAll a .pathsOnly g rest
    else do
      let (g, valueFollows) ← readOne a g argument
      readAll a (if valueFollows then .format else .anything) g rest

/-- Reads options up to the first word, which is given with the arguments after it. -/
def readWord (g : Given) : List String → Option (Given × String × List String)
  | [] => none
  | argument :: rest =>
    match Shape.of argument with
    | .path => some (g, argument, rest)
    | .pathsOnly => none
    | _ => do
      let (g, valueFollows) ← readOne {} g argument
      if valueFollows then none else readWord g rest

/-- Reads what is to be done about the settings. -/
def readAction (rest : List String) : Option (Bool × SettingsAction) := do
  let (g, word, rest) ← readWord {} rest
  let h ← readAll {} .anything {} rest
  if !h.paths.isEmpty then none
  let verbose := g.verbose || h.verbose
  match word with
  | "show" => return (verbose, .show)
  | "init" => return (verbose, .init)
  | "path" => return (verbose, .path)
  | _ => none

/-- The command that a word and the arguments after it ask for. -/
def readCommand (word : String) (rest : List String) : Option (Bool × Command) :=
  match word with
  | "parse" => do
    let g ← readAll { format := true } .anything {} rest
    if g.paths.isEmpty then none else return (g.verbose, .parse g.paths g.format)
  | "tokens" => do
    let g ← readAll { json := true } .anything {} rest
    match g.paths with
    | [path] => return (g.verbose, .tokens path g.json)
    | _ => none
  | "check" => do
    let g ← readAll {} .anything {} rest
    if g.paths.isEmpty then none else return (g.verbose, .check g.paths)
  | "outline" => do
    let g ← readAll { json := true, summary := true } .anything {} rest
    if g.paths.isEmpty then none else return (g.verbose, .outline g.paths g.json g.summary)
  | "config" => do
    let (verbose, action) ← readAction rest
    return (verbose, .settings action)
  | _ => none

/-- What the arguments of the tool ask for, if they ask for anything. -/
def ofArguments? (arguments : List String) : Option Invocation := do
  let (g, word, rest) ← readWord {} arguments
  let (verbose, command) ← readCommand word rest
  return { verbose := g.verbose || verbose, command }

end Invocation

end JassSyntax
