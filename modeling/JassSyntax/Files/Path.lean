/-!
# Paths

Paths are texts with parts between slashes. Empty parts and parts of one point, other than a leading
one, say nothing about the file.
-/

namespace JassSyntax.Path

/-- The parts of a path between its slashes. -/
def parts (path : String) : List String := path.splitOn "/"

/-- The parts of a path that lead somewhere. -/
def steps (path : String) : List String := (parts path).filter fun s => s ≠ "" ∧ s ≠ "."

/-- The file name that a path ends in. The parent directory is no name. -/
def fileName? (path : String) : Option String :=
  (steps path).getLast?.filter (· ≠ "..")

/-- What follows the last point of a file name. A point at the very front begins no extension. -/
def extensionOf? (name : String) : Option String :=
  let (tail, front) := name.toList.reverse.span (· ≠ '.')
  if front.length ≤ 1 then none else some (String.ofList tail.reverse)

/-- The extension of the file that a path leads to. -/
def extension? (path : String) : Option String := fileName? path >>= extensionOf?

/-- Something in a directory. A slash at the end of the directory is not doubled. -/
def join (directory name : String) : String :=
  if directory = "" ∨ directory.toList.getLast? = some '/' then directory ++ name
  else directory ++ "/" ++ name

/-- The directory that a path names its last part in. -/
def parent (path : String) : String :=
  let front := (path.toList.reverse.dropWhile (· = '/')).dropWhile (· ≠ '/')
  match front.dropWhile (· = '/') with
  | [] => if front.isEmpty then "" else "/"
  | directory => String.ofList directory.reverse

/-- Whether two extensions differ at most in the case of letters of the basic Latin alphabet. -/
def sameExtension (a b : String) : Bool :=
  a.toList.map Char.toLower == b.toList.map Char.toLower

/-- Whether the path has one of the extensions. -/
def hasExtension (extensions : List String) (path : String) : Bool :=
  (extension? path).any fun e => extensions.any (sameExtension e)

end JassSyntax.Path
