import Bindable.Marker.Descriptor
import Bindable.Source.Member

/-! The members generated for one descriptor: its fields, then its accessors if the marker stands on
the type, then the partial methods its callbacks go to. -/

namespace Bindable

namespace Framework

def bindableProperty : String := "global::Microsoft.Maui.Controls.BindableProperty"

def bindablePropertyKey : String := "global::Microsoft.Maui.Controls.BindablePropertyKey"

def bindingMode : String := "global::Microsoft.Maui.Controls.BindingMode"

def generatedCode : String := "global::System.CodeDom.Compiler.GeneratedCode"

end Framework

namespace MemberName

def field (name : String) : String := name ++ "Property"

def key (name : String) : String := name ++ "PropertyKey"

def changed (name : String) : String := "On" ++ name ++ "Changed"

def changing (name : String) : String := "On" ++ name ++ "Changing"

def validate (name : String) : String := "Validate" ++ name

def coerce (name : String) : String := "Coerce" ++ name

def defaultValue (name : String) : String := "Create" ++ name ++ "DefaultValue"

def getter (name : String) : String := "Get" ++ name

def setter (name : String) : String := "Set" ++ name

end MemberName

/-- The attributes of generated members: the tool and its version, or none. -/
def Options.memberAttributes (o : Options) : List String :=
  if o.generatedCodeAttribute then
    [Framework.generatedCode ++ "(\"" ++ o.toolName ++ "\", \"" ++ o.toolVersion ++ "\")"]
  else []

def DefaultMode.expr : DefaultMode → Expr
  | known mode => .member (.ident Framework.bindingMode) mode.name
  | raw n => .cast Framework.bindingMode (.literal (.integer (.integer .int) n))

namespace Descriptor

/-- The field that is written through: the key of a read-only property. -/
def writeHandle (d : Descriptor) : String :=
  match d.shape with
  | .writable => MemberName.field d.name
  | .readOnly => MemberName.key d.name

/-- Null for references and nullable types, else the default of the type. -/
def defaultExpr (d : Descriptor) : Expr :=
  match d.defaultValue with
  | some e => e
  | none =>
    let t := d.propertyType
    let isReference := match t.primitive with
      | some p => p.isReference
      | none => !t.isValueType && !t.isTypeParameter
    if isReference || t.nullable then .null else .defaultOf t.unannotated

/-- What a callback is sent to: the object as an instance of the declaring type, or the method of
the declaring type with the host as its first argument. -/
def forward (d : Descriptor) (stub : String) (args : List (Option String × Expr)) : Expr :=
  match d.host with
  | none => .call (.member (.cast d.declaringType.unannotated (.ident "bindable")) stub) args
  | some host =>
    .call (.ident stub) (Expr.positional (.cast host.unannotated (.ident "bindable")) :: args)

def typedArgument (d : Descriptor) (param : String) : Option String × Expr :=
  Expr.positional (.cast d.propertyType.display (.ident param))

/-- The callback of a change, with the old and the new value. -/
def changeCallback (d : Descriptor) (stub : String) : Expr :=
  .lambda ["bindable", "oldValue", "newValue"]
    (d.forward stub [d.typedArgument "oldValue", d.typedArgument "newValue"])

def valueCallback (d : Descriptor) (stub : String) : Expr :=
  .lambda ["bindable", "value"] (d.forward stub [d.typedArgument "value"])

def factoryCallback (d : Descriptor) (stub : String) : Expr :=
  .lambda ["bindable"] (d.forward stub [])

def createArguments (d : Descriptor) : List (Option String × Expr) :=
  let when (enabled : Bool) (e : Expr) : Expr := if enabled then e else .null
  [Expr.named "propertyName" (.literal (.string d.name)),
    Expr.named "returnType" (.typeOf d.propertyType.displayAsOperand),
    Expr.named "declaringType" (.typeOf d.declaringType.displayAsOperand),
    Expr.named "defaultValue" d.defaultExpr,
    Expr.named "defaultBindingMode" d.defaultMode.expr,
    Expr.named "validateValue" (when d.hasValidate (d.valueCallback (MemberName.validate d.name))),
    Expr.named "propertyChanged" (d.changeCallback (MemberName.changed d.name)),
    Expr.named "propertyChanging" (d.changeCallback (MemberName.changing d.name)),
    Expr.named "coerceValue" (when d.hasCoerce (d.valueCallback (MemberName.coerce d.name))),
    Expr.named "defaultValueCreator"
      (when d.emitsFactory (d.factoryCallback (MemberName.defaultValue d.name)))]

/-- The method that creates the property. -/
def createMethod (d : Descriptor) : String :=
  match d.shape, d.isAttached with
  | .writable, false => "Create"
  | .writable, true => "CreateAttached"
  | .readOnly, false => "CreateReadOnly"
  | .readOnly, true => "CreateAttachedReadOnly"

def createCall (d : Descriptor) : Expr :=
  .call (.member (.ident Framework.bindableProperty) d.createMethod) d.createArguments

def staticField (o : Options) (v : Visibility) (type name : String) (initializer : Expr) : Member :=
  .field {
    attributes := o.memberAttributes
    modifiers := v.modifiers ++ ["static", "readonly"]
    type
    name
    initializer }

/-- A read-only property is created as a key, of which the public field is a part. -/
def keyFields (o : Options) (d : Descriptor) : List Member :=
  match d.shape with
  | .writable =>
    [staticField o d.getVisibility Framework.bindableProperty (MemberName.field d.name)
        d.createCall]
  | .readOnly =>
    [staticField o d.effectiveSetVisibility Framework.bindablePropertyKey (MemberName.key d.name)
        d.createCall,
      staticField o d.getVisibility Framework.bindableProperty (MemberName.field d.name)
        (.member (.ident (MemberName.key d.name)) "BindableProperty")]

end Descriptor

/-- The levels of a property and its accessors. At most one accessor has a level of its own, which
is stricter than the property's. -/
structure AccessorLevels where
  property : Visibility
  getter : Option Visibility
  setter : Option Visibility
  deriving DecidableEq, Repr, Inhabited

namespace Descriptor

/-- For levels that cannot be compared the setter takes what they have in common. -/
def accessorLevels (d : Descriptor) : AccessorLevels :=
  let read := d.getVisibility
  let write := d.effectiveSetVisibility
  if d.shape = .writable ∨ read = write then { property := read, getter := none, setter := none }
  else if write.stricterThan read then { property := read, getter := none, setter := some write }
  else if read.stricterThan write then { property := write, getter := some read, setter := none }
  else { property := read, getter := none, setter := some .protectedPrivate }

def accessorModifiers : Option Visibility → List String
  | none => []
  | some v => v.modifiers

def instanceAccessor (o : Options) (d : Descriptor) : Member :=
  let type := d.propertyType.display
  let levels := d.accessorLevels
  .property {
    attributes := o.memberAttributes
    modifiers := levels.property.modifiers
    type
    name := d.name
    getter := {
      modifiers := accessorModifiers levels.getter
      body := .cast type
        (.call (.ident "GetValue") [Expr.positional (.ident (MemberName.field d.name))]) }
    setter := some {
      modifiers := accessorModifiers levels.setter
      body := .call (.ident "SetValue")
        [Expr.positional (.ident d.writeHandle), Expr.positional (.ident "value")] } }

def attachedAccessors (o : Options) (d : Descriptor) (host : TypeReference) : List Member :=
  let type := d.propertyType.display
  let view : MethodParameter := { type := host.display, name := "view" }
  let write := match d.shape with
    | .writable => d.getVisibility
    | .readOnly => d.effectiveSetVisibility
  [.method {
      attributes := o.memberAttributes
      modifiers := d.getVisibility.modifiers ++ ["static"]
      returnType := type
      name := MemberName.getter d.name
      parameters := [view]
      body := some (.cast type (.call (.member (.ident "view") "GetValue")
        [Expr.positional (.ident (MemberName.field d.name))])) },
    .method {
      attributes := o.memberAttributes
      modifiers := write.modifiers ++ ["static"]
      returnType := "void"
      name := MemberName.setter d.name
      parameters := [view, { type, name := "value" }]
      body := some (.call (.member (.ident "view") "SetValue")
        [Expr.positional (.ident d.writeHandle), Expr.positional (.ident "value")]) }]

/-- Only a marker on the type has its accessors generated. -/
def accessors (o : Options) (d : Descriptor) : List Member :=
  match d.site, d.host with
  | .member, _ => []
  | .type, none => [d.instanceAccessor o]
  | .type, some host => d.attachedAccessors o host

def stub (modifiers : List String) (returnType name : String) (parameters : List MethodParameter) :
    Member :=
  .method { attributes := [], modifiers, returnType, name, parameters, body := none }

def stubs (d : Descriptor) : List Member :=
  let type := d.propertyType.display
  let view : List MethodParameter :=
    (d.host.map fun h => { type := h.display, name := "view" }).toList
  let scope := if d.isAttached then ["static", "partial"] else ["partial"]
  let change := view ++ [{ type, name := "oldValue" }, { type, name := "newValue" }]
  let value := view ++ [{ type, name := "value" }]
  let when (enabled : Bool) (m : Member) : List Member := if enabled then [m] else []
  [stub scope "void" (MemberName.changed d.name) change,
    stub scope "void" (MemberName.changing d.name) change] ++
    when d.hasValidate
      (stub ("private" :: scope) "bool" (MemberName.validate d.name) value) ++
    when d.hasCoerce (stub ("private" :: scope) type (MemberName.coerce d.name) value) ++
    when d.emitsFactory
      (stub ("private" :: scope) type (MemberName.defaultValue d.name) view)

def members (o : Options) (d : Descriptor) : List Member :=
  d.keyFields o ++ d.accessors o ++ d.stubs

end Descriptor

end Bindable
