import Bindable.Files.Store

/-! The files of the machine. -/

namespace Bindable.Disk

/-- Whether an action succeeds. -/
def succeeds (action : IO α) : IO Bool :=
  try
    let _ ← action
    return true
  catch _ => return false

/-- What kind of file a path leads to. -/
def kind? (path : String) : IO (Option IO.FS.FileType) :=
  try return some (← (← IO.FS.realPath path).metadata).type
  catch _ => return none

def removeFile (path : String) : IO Removal :=
  try
    IO.FS.removeFile path
    return .removed
  catch
    | .noFileOrDirectory .. => return .missing
    | _ => return .failed

/-- The files below a directory, down to a depth. Links are not followed. -/
def filesBelow : Nat → String → IO (List String)
  | 0, _ => return []
  | depth + 1, path => do
    let entries ← (← IO.FS.realPath path).readDir
    let sorted := entries.toList.mergeSort fun a b => decide (a.fileName ≤ b.fileName)
    let paths ← sorted.mapM fun entry => do
      let path := joinPath path entry.fileName
      match (← entry.path.symlinkMetadata).type with
      | .dir => filesBelow depth path
      | .file => return [path]
      | _ => return []
    return paths.flatten

/-- A path has fewer bytes than this, so that no directory is deeper. -/
def depthLimit : Nat := 4096

end Bindable.Disk

namespace Bindable

instance : FileStore IO where
  isFile path := return (← Disk.kind? path) == some .file
  isDirectory path := return (← Disk.kind? path) == some .dir
  readText? path := do
    try return some (← IO.FS.readFile path)
    catch _ => return none
  writeText path text := Disk.succeeds (IO.FS.writeFile path text)
  removeFile := Disk.removeFile
  makeDirectories path := Disk.succeeds (IO.FS.createDirAll path)
  filesBelow path := do
    try return some (← Disk.filesBelow Disk.depthLimit path)
    catch _ => return none

end Bindable
