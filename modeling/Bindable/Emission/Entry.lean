import Bindable.Digest
import Bindable.Emission.Members
import Bindable.Marker.Occurrence
import Bindable.Source.Unit

/-! Source files: what is generated for the markers of one family on one type. -/

namespace Bindable

/-- A name and, for a generic type, the number of its parameters. -/
def aritySegment (name : String) (arity : Nat) : String :=
  if arity = 0 then name else name ++ "`" ++ toString arity

/-- The name of the file: the namespace and a dot, the chain of types joined by plus signs, a mark
of the attached family, the extension. -/
def hintName (t : TypeDeclaration) (family : MarkerFamily) : String :=
  t.qualification ++
    String.join (t.enclosing.map fun e => aritySegment e.name e.typeParameters.length ++ "+") ++
    aritySegment t.name t.typeParameters.length ++
    (match family with
      | .onInstance => ""
      | .attached => "-Attached") ++
    ".g.cs"

structure SourceFile where
  hintName : String
  text : String
  hash : String
  deriving DecidableEq, Repr, Inhabited

def SourceFile.ofText (hintName text : String) : SourceFile :=
  { hintName, text, hash := digest text }

structure Entry where
  type : TypeDeclaration
  family : MarkerFamily
  descriptors : List Descriptor
  diagnostics : List Diagnostic
  deriving Repr, Inhabited

namespace Entry

def hintName (e : Entry) : String := Bindable.hintName e.type e.family

def hasOutput (e : Entry) : Bool := !e.descriptors.isEmpty

def unit (o : Options) (e : Entry) : SourceUnit :=
  { nullableDirective := o.nullableDirective
    namespaceName := e.type.namespace?
    wrappers :=
      e.type.enclosing.map (fun t =>
        { keyword := t.kind.keyword, name := t.name, typeParameters := t.typeParameters }) ++
      [{ keyword := e.type.kind.keyword, name := e.type.name,
         typeParameters := e.type.typeParameters }]
    members := e.descriptors.flatMap (·.members o) }

/-- Without descriptors there is nothing to write. -/
def sourceFile? (o : Options) (e : Entry) : Option SourceFile :=
  if e.hasOutput then some (.ofText e.hintName (e.unit o).render) else none

end Entry

def duplicateName (t : TypeDeclaration) (d : Descriptor) : Diagnostic :=
  .report .duplicatePropertyName [d.name, t.name] d.location

/-- What has been gathered from the markers of a family. -/
structure Gathered where
  descriptors : List Descriptor := []
  diagnostics : List Diagnostic := []
  deriving Repr, Inhabited

namespace Gathered

/-- Takes in one marker; of two properties with one name the later is reported and dropped. -/
def add (t : TypeDeclaration) (taken : List String) (g : Gathered) (r : Reading) : Gathered :=
  match r.descriptor with
  | none => { g with diagnostics := g.diagnostics ++ r.diagnostics }
  | some d =>
    if d.name ∈ taken ++ g.descriptors.map (·.name) then
      { g with diagnostics := g.diagnostics ++ r.diagnostics ++ [duplicateName t d] }
    else
      { descriptors := g.descriptors ++ [d], diagnostics := g.diagnostics ++ r.diagnostics }

def ofReadings (t : TypeDeclaration) (taken : List String) (rs : List Reading) : Gathered :=
  rs.foldl (add t taken) {}

end Gathered

namespace Compilation

/-- The readings of a family's markers on a type. -/
def readings (c : Compilation) (t : TypeDeclaration) (family : MarkerFamily) : List Reading :=
  (t.occurrences.filter fun o => o.family? = some family).map (c.read t)

/-- The entries of a type, instance markers before attached ones, each if it holds anything. Names
are unique over both. -/
def entries (c : Compilation) (t : TypeDeclaration) : List Entry :=
  if t.kind = .enumType ∨ t.kind = .interfaceType then []
  else
    let instances := Gathered.ofReadings t [] (c.readings t .onInstance)
    let attached :=
      Gathered.ofReadings t (instances.descriptors.map (·.name)) (c.readings t .attached)
    let entry (family : MarkerFamily) (g : Gathered) : Entry :=
      { type := t, family, descriptors := g.descriptors, diagnostics := g.diagnostics }
    [entry .onInstance instances, entry .attached attached].filter fun e =>
      e.hasOutput || !e.diagnostics.isEmpty

end Compilation

end Bindable
