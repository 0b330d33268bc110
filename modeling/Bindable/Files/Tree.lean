import Bindable.Files.Store
import Bindable.Table

/-! A file system as a tree. -/

namespace Bindable

inductive FileTree where
  /-- No text stands for content that is not text. -/
  | file (text : Option String)
  | directory (entries : List (String × FileTree))
  deriving Inhabited, Repr

/-- The parts of a path between slashes. -/
def splitSlashes : List Char → List (List Char)
  | [] => [[]]
  | c :: cs =>
    if c = '/' then [] :: splitSlashes cs
    else
      match splitSlashes cs with
      | [] => [[c]]
      | part :: parts => (c :: part) :: parts

def partNames (path : String) : List String :=
  ((splitSlashes path.toList).filter (· ≠ [])).map String.ofList

/-- The names on a path. A slash at the end asks for a directory, like a dot. -/
def pathNames (path : String) : List String :=
  let names := partNames path
  if path.endsWith "/" && !names.isEmpty then names ++ ["."] else names

/-- A name that a file can have is at most 255 bytes long. -/
def isFileName (name : String) : Bool := name.utf8ByteSize ≤ 255

/-- A path is at most 4095 bytes long and holds no zero character. -/
def isPath (path : String) : Bool := path.utf8ByteSize ≤ 4095 && !path.toList.contains '\x00'

/-- The names on a path up to the directory that is to be there before the path can be created. A
directory named through a dot has to be there itself. -/
def namesAround (names : List String) : List String :=
  let body := (names.reverse.dropWhile (· = ".")).reverse
  if body.getLast? = some ".." then body else body.dropLast

/-- Where a path leads. -/
inductive Place where
  /-- To a file or directory. -/
  | found (path : List String) (node : FileTree)
  /-- To a free name in a directory. -/
  | free (path : List String)
  /-- Through a directory that is not there. -/
  | missing
  /-- Through a file, or to a name that no file can have. -/
  | blocked
  deriving Repr, Inhabited

namespace FileTree

def isDirectory : FileTree → Bool
  | directory _ => true
  | file _ => false

def child? (name : String) : FileTree → Option FileTree
  | directory entries => Table.get? entries name
  | file _ => none

/-- The node at the end of a list of names. -/
def node? : List String → FileTree → Option FileTree
  | [], t => some t
  | name :: rest, t => (t.child? name).bind (node? rest)

/-- The tree with a node at the end of a list of names, where the directory around it exists. -/
def put (t : FileTree) (names : List String) (node : FileTree) : FileTree :=
  match names, t with
  | [], _ => node
  | [name], directory entries => directory (Table.insert name node entries)
  | name :: rest, directory entries =>
    match Table.get? entries name with
    | some child => directory (Table.insert name (child.put rest node) entries)
    | none => directory entries
  | _ :: _, file text => file text

/-- The tree without what is at the end of a list of names. -/
def drop (t : FileTree) (names : List String) : FileTree :=
  match names, t with
  | [name], directory entries => directory (Table.erase name entries)
  | name :: rest, directory entries =>
    match Table.get? entries name with
    | some child => directory (Table.insert name (child.drop rest) entries)
    | none => directory entries
  | _, t => t

/-- Follows names from the node at a place that has been reached. -/
def locateFrom (root : FileTree) (reached : List String) : List String → Place
  | [] =>
    match root.node? reached with
    | some node => .found reached node
    | none => .missing
  | name :: rest =>
    match root.node? reached with
    | some (.directory entries) =>
      if name = "." then locateFrom root reached rest
      else if name = ".." then locateFrom root reached.dropLast rest
      else if !isFileName name then .blocked
      else if (Table.get? entries name).isSome then locateFrom root (reached ++ [name]) rest
      else if rest = [] then .free (reached ++ [name])
      else .missing
    | _ => .blocked

def locate (root : FileTree) (path : String) : Place :=
  if isPath path then locateFrom root [] (pathNames path) else .blocked

def fileAt (root : FileTree) (path : String) : Bool :=
  match root.locate path with
  | .found _ (.file _) => true
  | _ => false

def directoryAt (root : FileTree) (path : String) : Bool :=
  match root.locate path with
  | .found _ (.directory _) => true
  | _ => false

def textAt? (root : FileTree) (path : String) : Option String :=
  match root.locate path with
  | .found _ (.file text) => text
  | _ => none

/-- The tree with a file written, if it can be. -/
def write? (root : FileTree) (path : String) (text : Option String) : Option FileTree :=
  match root.locate path with
  | .found names (.file _) | .free names => some (root.put names (.file text))
  | _ => none

def remove (root : FileTree) (path : String) : Removal × FileTree :=
  match root.locate path with
  | .found names (.file _) => (.removed, root.drop names)
  | .free _ | .missing => (.missing, root)
  | _ => (.failed, root)

/-- Creates the directories on a path from left to right, up to an obstacle. -/
def makeFrom (root : FileTree) (reached : List String) : List String → Bool × FileTree
  | [] => (((root.node? reached).map isDirectory).getD false, root)
  | name :: rest =>
    match root.node? reached with
    | some (.directory entries) =>
      if name = "." then makeFrom root reached rest
      else if name = ".." then makeFrom root reached.dropLast rest
      else if !isFileName name then (false, root)
      else if (Table.get? entries name).isSome then makeFrom root (reached ++ [name]) rest
      else makeFrom (root.put (reached ++ [name]) (.directory [])) (reached ++ [name]) rest
    | _ => (false, root)

def makeDirectories (root : FileTree) (path : String) : Bool × FileTree :=
  let names := partNames path
  if !isPath path then (false, root)
  else if names.getLast? = some "." then
    let (made, t) := makeFrom root [] (namesAround names)
    (made && t.directoryAt path, t)
  else makeFrom root [] names

/-- Removes a file, or a directory with all it holds. -/
def removeAll? (root : FileTree) (path : String) : Option FileTree :=
  match root.locate path with
  | .found names _ => some (root.drop names)
  | _ => none

mutual

/-- The paths of all files, depth first, if every directory has a path to list it by. -/
def filePaths? (path : String) : FileTree → Option (List String)
  | file _ => some [path]
  | directory entries => if isPath path then filePathsIn? path entries else none

def filePathsIn? (path : String) : List (String × FileTree) → Option (List String)
  | [] => some []
  | (name, node) :: rest => do
    return (← node.filePaths? (joinPath path name)) ++ (← filePathsIn? path rest)

end

mutual

/-- All files with their texts; an empty directory stands as a path that ends in a slash. -/
def contents (path : String) : FileTree → List (String × Option String)
  | file text => [(path, text)]
  | directory [] => if path = "" then [] else [(path ++ "/", none)]
  | directory (entry :: entries) => contentsIn path (entry :: entries)

def contentsIn (path : String) : List (String × FileTree) → List (String × Option String)
  | [] => []
  | (name, node) :: rest => node.contents (joinPath path name) ++ contentsIn path rest

end

end FileTree

instance : FileStore (StateM FileTree) where
  isFile path := return (← get).fileAt path
  isDirectory path := return (← get).directoryAt path
  readText? path := return (← get).textAt? path
  writeText path text := do
    match (← get).write? path (some text) with
    | some t => set t; return true
    | none => return false
  removeFile path := do
    let (outcome, t) := (← get).remove path
    set t
    return outcome
  makeDirectories path := do
    let (made, t) := (← get).makeDirectories path
    set t
    return made
  filesBelow path := do
    match (← get).locate path with
    | .found _ node => return node.filePaths? path
    | _ => return none

end Bindable
