import Bindable.Diagnostic
import Bindable.Marker.Occurrence

/-! Properties of reference types that are not nullable need a default. -/

namespace Bindable.Analysis

/-- The marker gives a default other than null, or asks for a factory. -/
def suppliesDefault (a : Attribute) : Bool :=
  ((a.named? "DefaultValue").map fun v => !v.isNull).getD false || a.flag "DefaultValueFactory"

def missingDefault (name : String) (type : TypeReference) (a : Attribute)
    (fallback : Option Location) : List Diagnostic :=
  if type.isNonNullableReference && !suppliesDefault a then
    [.report .defaultValueNull [name, type.display] (a.location.or fallback)]
  else []

def defaultValueAt (t : TypeDeclaration) : Visit → List Diagnostic
  | .typeAttribute a =>
    match a.markedTypes?, a.givenName? with
    | some (type, _), some name => missingDefault name type a t.location
    | _, _ => []
  | .propertyAttribute p a =>
    if a.family? = some .onInstance ∧ !p.isStatic ∧ !p.isIndexer then
      missingDefault p.name p.type a p.location
    else []
  | .methodAttribute m a =>
    if a.family? = some .attached ∧ m.isStatic then
      match Text.attachedName? m.name, m.returnType with
      | some name, some type => missingDefault name type a m.location
      | _, _ => []
    else []
  | .property _ | .method _ => []

def defaultValue (t : TypeDeclaration) : List Diagnostic := t.walk.flatMap (defaultValueAt t)

end Bindable.Analysis
