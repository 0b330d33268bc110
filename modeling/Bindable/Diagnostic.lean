import Bindable.Model.Attribute
import Bindable.Table

/-! What is reported about the user's code. -/

namespace Bindable

inductive Severity where
  | info | warning | error
  deriving DecidableEq, Repr, Inhabited

def Severity.word : Severity → String
  | .info => "info"
  | .warning => "warning"
  | .error => "error"

inductive DiagnosticId where
  | emptyPropertyName
  | invalidPropertyName
  | invalidVisibility
  | invalidDefaultMode
  | defaultValueNotSupported
  | defaultValueAndFactory
  | redundantWriteVisibility
  | defaultValueNull
  | attachedPropertyNotUsed
  | instancePropertyNotUsed
  | instanceToAttached
  | staticProperty
  | attributeOnIndexer
  | handlerAddPartialPlatformClass
  | duplicatePropertyName
  deriving DecidableEq, Repr, Inhabited

namespace DiagnosticId

def all : List DiagnosticId :=
  [emptyPropertyName, invalidPropertyName, invalidVisibility, invalidDefaultMode,
    defaultValueNotSupported, defaultValueAndFactory, redundantWriteVisibility, defaultValueNull,
    attachedPropertyNotUsed, instancePropertyNotUsed, instanceToAttached, staticProperty,
    attributeOnIndexer, handlerAddPartialPlatformClass, duplicatePropertyName]

def name : DiagnosticId → String
  | emptyPropertyName => "EmptyPropertyName"
  | invalidPropertyName => "InvalidPropertyName"
  | invalidVisibility => "InvalidVisibility"
  | invalidDefaultMode => "InvalidDefaultMode"
  | defaultValueNotSupported => "DefaultValueNotSupported"
  | defaultValueAndFactory => "DefaultValueAndFactory"
  | redundantWriteVisibility => "RedundantWriteVisibility"
  | defaultValueNull => "DefaultValueNull"
  | attachedPropertyNotUsed => "AttachedPropertyNotUsed"
  | instancePropertyNotUsed => "InstancePropertyNotUsed"
  | instanceToAttached => "InstanceToAttached"
  | staticProperty => "StaticProperty"
  | attributeOnIndexer => "AttributeOnIndexer"
  | handlerAddPartialPlatformClass => "HandlerAddPartialPlatformClass"
  | duplicatePropertyName => "DuplicatePropertyName"

def ofName? (s : String) : Option DiagnosticId := all.find? fun id => id.name = s

def code : DiagnosticId → String
  | emptyPropertyName => "BPG0001"
  | invalidPropertyName => "BPG0002"
  | invalidVisibility => "BPG0003"
  | invalidDefaultMode => "BPG0004"
  | defaultValueNotSupported => "BPG0005"
  | defaultValueAndFactory => "BPG0006"
  | redundantWriteVisibility => "BPG0007"
  | defaultValueNull => "BPG0008"
  | attachedPropertyNotUsed => "BPG0009"
  | instancePropertyNotUsed => "BPG0010"
  | instanceToAttached => "BPG0011"
  | staticProperty => "BPG0012"
  | attributeOnIndexer => "BPG0013"
  | handlerAddPartialPlatformClass => "BPG0014"
  | duplicatePropertyName => "BPG0015"

def severity : DiagnosticId → Severity
  | emptyPropertyName | invalidPropertyName | invalidVisibility | defaultValueNotSupported
  | staticProperty | attributeOnIndexer | duplicatePropertyName => .error
  | invalidDefaultMode | defaultValueAndFactory | defaultValueNull | attachedPropertyNotUsed
  | instancePropertyNotUsed => .warning
  | redundantWriteVisibility | instanceToAttached | handlerAddPartialPlatformClass => .info

def title : DiagnosticId → String
  | emptyPropertyName => "Property name is required"
  | invalidPropertyName => "Property name is not a valid identifier"
  | invalidVisibility => "Invalid visibility"
  | invalidDefaultMode => "Invalid default binding mode"
  | defaultValueNotSupported => "Default value is not supported"
  | defaultValueAndFactory => "Default value and default value factory"
  | redundantWriteVisibility => "Redundant write visibility"
  | defaultValueNull => "Non-nullable property without default value"
  | attachedPropertyNotUsed => "Attached property accessor does not use its bindable property"
  | instancePropertyNotUsed => "Property does not use its bindable property"
  | instanceToAttached => "Instance property marked as attached property"
  | staticProperty => "Static property cannot be bindable"
  | attributeOnIndexer => "Indexer cannot be bindable"
  | handlerAddPartialPlatformClass => "Add partial platform handler class"
  | duplicatePropertyName => "Duplicate bindable property"

/-- The message, with numbered placeholders in braces. -/
def template : DiagnosticId → String
  | emptyPropertyName => "The property name of '\x7b0\x7d' must not be null or empty"
  | invalidPropertyName => "'\x7b0\x7d' is not a valid property name"
  | invalidVisibility => "'\x7b0\x7d' is not a valid value for \x7b1\x7d on property '\x7b2\x7d'"
  | invalidDefaultMode => "'\x7b0\x7d' is not a defined binding mode for property '\x7b1\x7d'"
  | defaultValueNotSupported =>
    "Default value '\x7b0\x7d' cannot be converted to '\x7b1\x7d' for property '\x7b2\x7d'"
  | defaultValueAndFactory =>
    "Property '\x7b0\x7d' specifies both DefaultValue and DefaultValueFactory; " ++
      "the default value is used"
  | redundantWriteVisibility =>
    "WriteVisibility of property '\x7b0\x7d' equals its Visibility and can be removed"
  | defaultValueNull =>
    "Property '\x7b0\x7d' of non-nullable type '\x7b1\x7d' needs a DefaultValue " ++
      "or DefaultValueFactory"
  | attachedPropertyNotUsed => "'\x7b0\x7d' does not read or write '\x7b1\x7d'"
  | instancePropertyNotUsed => "The accessors of '\x7b0\x7d' must read and write '\x7b1\x7d'"
  | instanceToAttached =>
    "Property '\x7b0\x7d' is marked as an attached property; " ++
      "declare static Get\x7b0\x7d/Set\x7b0\x7d methods instead"
  | staticProperty => "Static property '\x7b0\x7d' cannot be a bindable property"
  | attributeOnIndexer => "Indexers cannot be bindable properties"
  | handlerAddPartialPlatformClass =>
    "Add a partial \x7b0\x7d implementation of '\x7b1\x7d' " ++
      "for the platform properties of '\x7b2\x7d'"
  | duplicatePropertyName => "Property '\x7b0\x7d' is already declared on '\x7b1\x7d'"

end DiagnosticId

def placeholder (index : Nat) : List Char := '\x7b' :: Nat.toDigits 10 index ++ ['\x7d']

/-- Fills in one placeholder after the other, also where an earlier argument brought it in. -/
def fillTemplate (message : List Char) (args : List String) : List Char :=
  args.zipIdx.foldl (fun m (arg, i) => Text.replaceAll (placeholder i) arg.toList m) message

structure Diagnostic where
  id : DiagnosticId
  message : String
  location : Option Location
  /-- Facts for tools. -/
  properties : Table String
  deriving DecidableEq, Repr, Inhabited

namespace Diagnostic

def report (id : DiagnosticId) (args : List String) (location : Option Location) : Diagnostic :=
  { id, message := String.ofList (fillTemplate id.template.toList args), location,
    properties := [] }

def withProperty (d : Diagnostic) (key value : String) : Diagnostic :=
  { d with properties := d.properties.insert key value }

def isError (d : Diagnostic) : Bool := d.id.severity = .error

/-- The diagnostic on one line, after its place if it has one. -/
def display (d : Diagnostic) : String :=
  let place := match d.location with
    | some l => l.file ++ "(" ++ toString l.line.toNat ++ "," ++ toString l.column.toNat ++ "): "
    | none => ""
  place ++ d.id.severity.word ++ " " ++ d.id.code ++ ": " ++ d.message

end Diagnostic

end Bindable
