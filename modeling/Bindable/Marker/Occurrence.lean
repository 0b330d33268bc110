import Bindable.Marker.Arguments
import Bindable.Model.Walk
import Bindable.Text.Identifier

/-! Markers where they are written, and their descriptors. -/

namespace Bindable

inductive Occurrence where
  | onType (a : Attribute)
  | onProperty (p : Property) (a : Attribute)
  | onMethod (m : Method) (a : Attribute)
  deriving DecidableEq, Repr, Inhabited

/-- The marker an event of the walk is about. -/
def Visit.occurrence? : Visit → Option Occurrence
  | typeAttribute a => some (.onType a)
  | propertyAttribute p a => some (.onProperty p a)
  | methodAttribute m a => some (.onMethod m a)
  | property _ | method _ => none

namespace Occurrence

def marker : Occurrence → Attribute
  | onType a | onProperty _ a | onMethod _ a => a

def family? (o : Occurrence) : Option MarkerFamily := o.marker.family?

end Occurrence

namespace TypeDeclaration

/-- The markers of a type, in declaration order. -/
def occurrences (t : TypeDeclaration) : List Occurrence :=
  (t.walk.filterMap (·.occurrence?)).filter fun o => o.family?.isSome

/-- The static setter method that belongs to an attached getter, by its place. -/
def attachedSetterIndex? (t : TypeDeclaration) (name : String) : Option Nat :=
  t.methods.findIdx? fun m => m.isStatic && m.name = "Set" ++ name && m.parameters.length = 2

def attachedSetter? (t : TypeDeclaration) (name : String) : Option Method :=
  t.methods.find? fun m => m.isStatic && m.name = "Set" ++ name && m.parameters.length = 2

end TypeDeclaration

namespace Attribute

/-- The property type and the host that the type arguments of a marker on a type give. -/
def markedTypes? (a : Attribute) : Option (TypeReference × Option TypeReference) :=
  match a.family?, a.typeArguments with
  | some .onInstance, [type] => some (type, none)
  | some .attached, [type, host] => some (type, some host)
  | _, _ => none

end Attribute

namespace Compilation

/-- A marker on a type names its property by its first argument. -/
def readOnType (c : Compilation) (t : TypeDeclaration) (a : Attribute) : Reading :=
  match a.markedTypes? with
  | none => .nothing
  | some (type, host) =>
    let location := a.location.or t.location
    match a.givenName? with
    | none => .rejected (.report .emptyPropertyName [t.name] location)
    | some name =>
      if Text.isIdentifier name then
        let base : Descriptor :=
          { name, propertyType := type, declaringType := t.reference, host, location }
        base.applyArguments c a.namedArguments
      else .rejected (.report .invalidPropertyName [name] location)

/-- An instance marker on a property that is neither static nor an indexer. Without a setter the
property is read-only. -/
def readOnProperty (c : Compilation) (t : TypeDeclaration) (p : Property) (a : Attribute) :
    Reading :=
  if a.family? = some .onInstance ∧ a.typeArguments = [] ∧ !p.isStatic ∧ !p.isIndexer then
    let base : Descriptor :=
      { name := p.name, propertyType := p.type, declaringType := t.reference, site := .member,
        isReadOnly := !p.hasSetter, location := a.location.or p.location }
    base.applyArguments c a.namedArguments
  else .nothing

/-- An attached marker on a static getter method of one parameter, the host. Without a setter method
the property is read-only. -/
def readOnMethod (c : Compilation) (t : TypeDeclaration) (m : Method) (a : Attribute) : Reading :=
  if a.family? = some .attached ∧ a.typeArguments = [] ∧ m.isStatic then
    match Text.attachedName? m.name, m.returnType, m.parameters with
    | some name, some type, [host] =>
      let base : Descriptor :=
        { name, propertyType := type, declaringType := t.reference, host := some host.type,
          site := .member, isReadOnly := (t.attachedSetter? name).isNone,
          location := a.location.or m.location }
      base.applyArguments c a.namedArguments
    | _, _, _ => .nothing
  else .nothing

def read (c : Compilation) (t : TypeDeclaration) : Occurrence → Reading
  | .onType a => c.readOnType t a
  | .onProperty p a => c.readOnProperty t p a
  | .onMethod m a => c.readOnMethod t m a

end Compilation

end Bindable
