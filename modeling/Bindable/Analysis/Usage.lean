import Bindable.Emission.Members
import Bindable.Marker.Occurrence
import Bindable.Text.Code

/-! Whether accessors written by hand go through the fields that are generated for them. -/

namespace Bindable.Analysis

/-- A setter may write through the key instead of the field. -/
def writesThrough (name : String) (body : Option String) : Bool :=
  match body with
  | some b =>
    Text.references b (MemberName.field name) || Text.references b (MemberName.key name)
  | none => false

def readsField (name : String) (body : Option String) : Bool :=
  match body with
  | some b => Text.references b (MemberName.field name)
  | none => false

/-- Every accessor the property has names its field. -/
def usesField (p : Property) : Bool :=
  let readBody := p.expressionBody.or (p.getter.bind (·.body))
  let reads := readsField p.name readBody || readBody.isNone && p.getter.isNone
  let writes :=
    match p.setter with
    | some setter => p.expressionBody.isSome || writesThrough p.name setter.body
    | none => true
  !p.isAutoImplemented && reads && writes

def propertyUsage (p : Property) (a : Attribute) : List Diagnostic :=
  let location := a.location.or p.location
  match a.family? with
  | some .onInstance =>
    if p.isIndexer then [.report .attributeOnIndexer [] location]
    else if p.isStatic then [.report .staticProperty [p.name] location]
    else if usesField p then []
    else [.report .instancePropertyNotUsed [p.name, MemberName.field p.name] location]
  | some .attached =>
    (if p.isStatic then [.report .staticProperty [p.name] location] else []) ++
      [.report .instanceToAttached [p.name] location]
  | none => []

/-- It is enough that one of an attached getter and its setter uses the field. -/
def methodUsage (t : TypeDeclaration) (m : Method) (a : Attribute) : List Diagnostic :=
  if a.family? = some .attached ∧ m.isStatic then
    match Text.attachedName? m.name with
    | none => []
    | some name =>
      let setterBody := (t.attachedSetter? name).bind (·.body)
      if readsField name m.body || writesThrough name setterBody then []
      else
        [.report .attachedPropertyNotUsed [m.name, MemberName.field name]
          (a.location.or m.location)]
  else []

def usage (t : TypeDeclaration) : List Diagnostic :=
  t.walk.flatMap fun
    | .propertyAttribute p a => propertyUsage p a
    | .methodAttribute m a => methodUsage t m a
    | _ => []

end Bindable.Analysis
