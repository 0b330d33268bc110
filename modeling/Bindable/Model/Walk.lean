import Bindable.Model.Declaration

/-! The one order in which a type is gone through: its attributes, then its properties, then its
methods, each member before its attributes. -/

namespace Bindable

inductive Visit where
  | typeAttribute (a : Attribute)
  | property (p : Property)
  | propertyAttribute (p : Property) (a : Attribute)
  | method (m : Method)
  | methodAttribute (m : Method) (a : Attribute)
  deriving DecidableEq, Repr, Inhabited

namespace TypeDeclaration

/-- The attributes of a member whose name is pruned are left out. -/
def walkPruned (t : TypeDeclaration) (pruned : String → Bool) : List Visit :=
  t.attributes.map .typeAttribute ++
    t.properties.flatMap (fun p =>
      .property p :: if pruned p.name then [] else p.attributes.map (.propertyAttribute p)) ++
    t.methods.flatMap (fun m =>
      .method m :: if pruned m.name then [] else m.attributes.map (.methodAttribute m))

def walk (t : TypeDeclaration) : List Visit := t.walkPruned fun _ => false

end TypeDeclaration

/-- A visit by its names. -/
def Visit.label : Visit → String
  | typeAttribute a => "type:" ++ a.name
  | property p => "property:" ++ p.name
  | propertyAttribute p a => "property:" ++ p.name ++ ":" ++ a.name
  | method m => "method:" ++ m.name
  | methodAttribute m a => "method:" ++ m.name ++ ":" ++ a.name

end Bindable
