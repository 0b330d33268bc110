import Bindable.Marker.Access
import Bindable.Model.Declaration
import Bindable.Source.Expr

/-! What one accepted marker asks for. -/

namespace Bindable

inductive MarkerFamily where
  | onInstance | attached
  deriving DecidableEq, Repr, Inhabited

/-- The family of an attribute, known by its simple name. -/
def Attribute.family? (a : Attribute) : Option MarkerFamily :=
  if a.simpleName = "BindableProperty" then some .onInstance
  else if a.simpleName = "AttachedBindableProperty" then some .attached
  else none

/-- A marker on the type has its accessors generated, one on a member sits on written ones. -/
inductive MarkerSite where
  | type | member
  deriving DecidableEq, Repr, Inhabited

inductive Shape where
  | writable | readOnly
  deriving DecidableEq, Repr, Inhabited

structure Descriptor where
  name : String
  propertyType : TypeReference
  declaringType : TypeReference
  /-- The type an attached property is set on; an instance property has none. -/
  host : Option TypeReference := none
  site : MarkerSite := .type
  /-- None stands for the natural default of the type. -/
  defaultValue : Option Expr := none
  defaultMode : DefaultMode := .known .oneWay
  getVisibility : Visibility := .publicAccess
  /-- None takes the level of the getter. -/
  setVisibility : Option Visibility := none
  isReadOnly : Bool := false
  hasFactory : Bool := false
  hasCoerce : Bool := false
  hasValidate : Bool := false
  location : Option Location := none
  deriving Repr, Inhabited

namespace Descriptor

def isAttached (d : Descriptor) : Bool := d.host.isSome

/-- A write level of its own makes the property read-only for everyone else. -/
def shape (d : Descriptor) : Shape :=
  let distinct := match d.setVisibility with
    | some v => v ≠ d.getVisibility
    | none => false
  if distinct || d.isReadOnly then .readOnly else .writable

def effectiveSetVisibility (d : Descriptor) : Visibility :=
  match d.setVisibility with
  | some v => v
  | none => if d.isReadOnly then .privateAccess else d.getVisibility

/-- A given default wins over the factory. -/
def emitsFactory (d : Descriptor) : Bool := d.hasFactory && d.defaultValue.isNone

end Descriptor

end Bindable
