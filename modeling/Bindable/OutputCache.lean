import Bindable.Files.Store
import Bindable.Generation
import Bindable.Json.Reader
import Bindable.Json.Writer
import Bindable.Table

/-! The output directory. A manifest beside the files keeps the digest of every file that was
written, so that an unchanged file is left alone and a file that is no longer generated is
removed. -/

namespace Bindable

def manifestName : String := ".bindable-cache.json"

namespace Manifest

/-- The digests by file name; of a repeated name the last counts. -/
def entriesOfJson? : Json → Option (Table String)
  | .object fields => do
    let entries ← fields.mapM fun p => do return (← p.1, ← p.2.string?)
    return Table.ofList entries
  | _ => none

def ofJson? (j : Json) : Option (Table String) := do
  match ← j.record? ["entries"] with
  | [entries] => Json.required entriesOfJson? entries
  | _ => none

def parse? (text : String) : Option (Table String) := (Json.parse? text).bind ofJson?

def toJson (entries : Table String) : Json :=
  .ofFields [("entries", .ofFields (entries.map fun p => (p.1, .ofString p.2)))]

def write (entries : Table String) : String := (toJson entries).pretty 0

end Manifest

structure OutputCache where
  directory : String
  entries : Table String
  /-- The names written since the directory was opened. -/
  emitted : List String
  deriving DecidableEq, Repr, Inhabited

namespace OutputCache

variable {m : Type → Type} [Monad m] [FileStore m]

def path (c : OutputCache) (hintName : String) : String := joinPath c.directory hintName

def manifestPath (c : OutputCache) : String := c.path manifestName

/-- Creates the directory if need be. A manifest that cannot be read counts as empty. -/
def openAt (directory : String) : m (Except Fault OutputCache) := do
  if ← FileStore.makeDirectories directory then
    let text ← FileStore.readText? (joinPath directory manifestName)
    let entries := (text.bind Manifest.parse?).getD []
    return .ok { directory, entries, emitted := [] }
  else return .error (.io directory)

/-- The file is there and was written with this digest. -/
def isFresh (c : OutputCache) (f : SourceFile) : m Bool := do
  if c.entries.get? f.hintName = some f.hash then FileStore.isFile (c.path f.hintName)
  else return false

/-- Writes a file unless it is fresh; tells whether it was written. -/
def write (c : OutputCache) (f : SourceFile) : m (OutputCache × Except Fault Bool) := do
  let c := { c with emitted := f.hintName :: c.emitted }
  if ← c.isFresh f then return (c, .ok false)
  else if ← FileStore.writeText (c.path f.hintName) f.text then
    return ({ c with entries := c.entries.insert f.hintName f.hash }, .ok true)
  else return (c, .error (.io (c.path f.hintName)))

/-- The names in the manifest that have not been written. -/
def stale (c : OutputCache) : List String :=
  (c.entries.map (·.1)).filter fun name => !c.emitted.contains name

/-- Removes files one by one, each with its entry, up to the first that cannot be removed. -/
def removeFiles (c : OutputCache) : List String → m (OutputCache × Except Fault Unit)
  | [] => return (c, .ok ())
  | name :: rest => do
    match ← FileStore.removeFile (c.path name) with
    | .failed => return (c, .error (.io (c.path name)))
    | _ => removeFiles { c with entries := c.entries.erase name } rest

/-- Removes the files that were not written again, then writes the manifest; gives the number of
stale names. -/
def flush (c : OutputCache) : m (OutputCache × Except Fault Nat) := do
  let names := c.stale
  match ← c.removeFiles names with
  | (c, .error e) => return (c, .error e)
  | (c, .ok ()) =>
    if ← FileStore.writeText c.manifestPath (Manifest.write c.entries) then
      return (c, .ok names.length)
    else return (c, .error (.io c.manifestPath))

end OutputCache

end Bindable
