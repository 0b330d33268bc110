/-! What a program needs of the place where its files are kept. -/

namespace Bindable

/-- A name below a directory; a name that starts with a slash is a path of its own. -/
def joinPath (directory name : String) : String :=
  if "/".isPrefixOf name then name
  else if directory = "" || directory.endsWith "/" then directory ++ name
  else directory ++ "/" ++ name

inductive Removal where
  | removed | missing | failed
  deriving DecidableEq, Repr, Inhabited

/-- Operations on files by path. An operation that fails has no effect. -/
class FileStore (m : Type → Type) where
  isFile : String → m Bool
  isDirectory : String → m Bool
  /-- The text of a file, none if there is no such file or its content is no text. -/
  readText? : String → m (Option String)
  /-- Writes a file; tells whether it could. -/
  writeText : String → String → m Bool
  removeFile : String → m Removal
  /-- Creates a directory and those around it; tells whether it is there. -/
  makeDirectories : String → m Bool
  /-- The paths of all files below a directory, its entries in the order of their names; none if a
  directory cannot be listed. -/
  filesBelow : String → m (Option (List String))

end Bindable
