import JassSyntax.Json.Reader
import JassSyntax.Settings.Basic

/-!
# Settings files

A settings file holds an object with a member for each setting, or an array with the settings in
their order. What is left out keeps its default, and members with other keys are passed over.
-/

namespace JassSyntax.Settings.File

open Json (Reader)
open Json.Reader (peek skip word string number failHere failNext failType wrongType colon
  anotherItem anotherMember listEnd objectEnd textEnd discard)

/-! ## Single settings -/

/-- Reads a null. -/
def nothing : Reader Unit := do
  match ← peek with
  | none => failNext .endInValue
  | some 'n' => skip; word ['u', 'l', 'l']
  | some _ => wrongType "unit"

/-- The format of a name. -/
def formatOf (name : String) : Reader OutputFormat :=
  match OutputFormat.ofName? name with
  | some f => return f
  | none =>
    failHere (.shape s!"unknown variant `{name}`, expected one of `tree`, `sexp`, `json`")

/-- Reads a format: its name, or an object that maps its name to null. -/
def format : Reader OutputFormat := do
  match ← peek with
  | none => failNext .endInValue
  | some '"' => formatOf (← string false)
  | some '\x7b' =>
    skip
    let f ← match ← peek with
      | none => failNext .endInValue
      | some '"' => formatOf (← string false)
      | some _ => failNext .keyNotString
    colon
    nothing
    match ← peek with
    | some '\x7d' => skip; return f
    | some _ => failHere .expectedValue
    | none => failHere .endInObject
  | some _ => failNext .expectedValue

/-- Reads an extension. -/
def fileExtension : Reader String := do
  match ← peek with
  | none => failNext .endInValue
  | some '"' => string false
  | some _ => wrongType "a string"

/-- Reads the extensions after those of `seen`, in at most `fuel` steps. -/
def extensionsFrom : Nat → List String → Reader (List String)
  | 0, seen => return seen
  | fuel + 1, seen => do
    if ← anotherItem seen.isEmpty then
      let e ← fileExtension
      extensionsFrom fuel (seen ++ [e])
    else return seen

/-- Reads a list of extensions. Every extension takes characters. -/
def extensionList : Reader (List String) := do
  match ← peek with
  | none => failNext .endInValue
  | some '[' =>
    skip
    let extensions ← extensionsFrom ((← get).length + 1) []
    listEnd
    return extensions
  | some _ => wrongType "a sequence"

/-- The number of problems that a number stands for. -/
def countOf : Json.Reader.Number → Reader UInt64
  | .natural n => return n.toUInt64
  | .negative n => failHere (.shape s!"invalid value: integer `-{n}`, expected usize")
  | .float f => failType (Json.Reader.Number.describe (.float f)) "usize"

/-- Reads a number of problems, or null for no bound. -/
def errorCount : Reader (Option UInt64) := do
  match ← peek with
  | none => failNext .endInValue
  | some 'n' => skip; word ['u', 'l', 'l']; return none
  | some '-' => skip; return some (← countOf (← number false true))
  | some c =>
    if c.isDigit then return some (← countOf (← number false false)) else wrongType "usize"

/-- Reads a truth value. -/
def flag : Reader Bool := do
  match ← peek with
  | none => failNext .endInValue
  | some 't' => skip; word ['r', 'u', 'e']; return true
  | some 'f' => skip; word ['a', 'l', 's', 'e']; return false
  | some _ => wrongType "a boolean"

/-! ## All settings -/

/-- The settings that have been read so far. -/
structure Partial where
  format : Option OutputFormat := none
  extensions : Option (List String) := none
  maxErrors : Option (Option UInt64) := none
  verbose : Option Bool := none

/-- The settings, with defaults for those that were left out. -/
def Partial.complete (p : Partial) : Settings :=
  let default : Settings := {}
  { format := p.format.getD default.format
    extensions := p.extensions.getD default.extensions
    maxErrors := p.maxErrors.getD default.maxErrors
    verbose := p.verbose.getD default.verbose }

/-- Fails because of a second member with one key. The fault is placed after the object if that ends
right there. -/
def duplicate {α : Type} (key : String) : Reader α := do
  if (← peek) = some '\x7d' then skip
  failHere (.shape s!"duplicate field `{key}`")

/-- Reads the value of a member that must not have been read before. -/
def once {α : Type} (key : String) (before : Option α) (read : Reader α) : Reader (Option α) := do
  if before.isSome then duplicate key
  colon
  return some (← read)

/-- Reads a member after its key. -/
def member (p : Partial) (key : String) : Reader Partial := do
  match key with
  | "format" => return { p with format := ← once key p.format format }
  | "extensions" => return { p with extensions := ← once key p.extensions extensionList }
  | "max_errors" => return { p with maxErrors := ← once key p.maxErrors errorCount }
  | "verbose" => return { p with verbose := ← once key p.verbose flag }
  | _ => do
    colon
    discard
    return p

/-- Reads members until the object ends, in at most `fuel` steps. -/
def membersFrom : Nat → Bool → Partial → Reader Partial
  | 0, _, p => return p
  | fuel + 1, first, p => do
    if ← anotherMember first then
      let key ← string false
      let p ← member p key
      membersFrom fuel false p
    else return p

/-- Reads an item if the array has another one. -/
def item {α : Type} (first : Bool) (read : Reader α) : Reader (Option α) := do
  if ← anotherItem first then return some (← read) else return none

/-- Reads the settings in the order of an array. -/
def items : Reader Partial := do
  let f ← item true format
  let e ← item false extensionList
  let m ← item false errorCount
  let v ← item false flag
  return { format := f, extensions := e, maxErrors := m, verbose := v }

/-- Reads a settings file. Every member takes characters. -/
def whole : Reader Settings := do
  let p ← match ← peek with
    | none => failNext .endInValue
    | some '[' => do
      skip
      let p ← items
      listEnd
      pure p
    | some '\x7b' => do
      skip
      let p ← membersFrom ((← get).length + 1) true {}
      objectEnd
      pure p
    | some _ => wrongType "struct Config"
  textEnd
  return p.complete

end File

/-- The settings that a text holds. -/
def ofText (text : String) : Except Json.Fault Settings :=
  (File.whole.run text.toList).map Prod.fst

end JassSyntax.Settings
