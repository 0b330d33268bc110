import Bindable.Model.Attribute

/-! Types and their members, as the compiler front end exports them. -/

namespace Bindable

inductive TypeKind where
  | classType | structType | recordType | interfaceType | enumType
  deriving DecidableEq, Repr, Inhabited

namespace TypeKind

def all : List TypeKind := [.classType, .structType, .recordType, .interfaceType, .enumType]

def keyword : TypeKind → String
  | .classType => "class"
  | .structType => "struct"
  | .recordType => "record"
  | .interfaceType => "interface"
  | .enumType => "enum"

def ofKeyword? (s : String) : Option TypeKind := all.find? fun k => k.keyword = s

theorem ofKeyword?_keyword (k : TypeKind) : ofKeyword? k.keyword = some k := by
  cases k <;> rfl

end TypeKind

/-- A type around another one. -/
structure EnclosingType where
  name : String
  kind : TypeKind
  typeParameters : List String
  deriving DecidableEq, Repr, Inhabited

structure EnumMember where
  name : String
  value : Int64
  deriving DecidableEq, Repr, Inhabited

/-- An accessor without a body is implemented by the compiler. -/
structure Accessor where
  body : Option String
  deriving DecidableEq, Repr, Inhabited

structure Property where
  name : String
  type : TypeReference
  isStatic : Bool
  isIndexer : Bool
  getter : Option Accessor
  setter : Option Accessor
  /-- The body of a property that is only read and has no accessors. -/
  expressionBody : Option String
  attributes : List Attribute
  location : Option Location
  deriving DecidableEq, Repr, Inhabited

namespace Property

/-- No accessor has a body. -/
def isAutoImplemented (p : Property) : Bool :=
  p.expressionBody.isNone && (p.getter.bind (·.body)).isNone && (p.setter.bind (·.body)).isNone

def hasSetter (p : Property) : Bool := p.expressionBody.isNone && p.setter.isSome

end Property

structure Parameter where
  name : String
  type : TypeReference
  deriving DecidableEq, Repr, Inhabited

structure Method where
  name : String
  /-- None for a method without a result. -/
  returnType : Option TypeReference
  isStatic : Bool
  parameters : List Parameter
  body : Option String
  attributes : List Attribute
  location : Option Location
  deriving DecidableEq, Repr, Inhabited

structure TypeDeclaration where
  /-- An empty namespace is as good as none. -/
  namespaceName : Option String
  name : String
  kind : TypeKind
  typeParameters : List String
  /-- Outermost first. -/
  enclosing : List EnclosingType
  isStatic : Bool
  attributes : List Attribute
  properties : List Property
  methods : List Method
  underlying : Option Primitive
  enumMembers : List EnumMember
  location : Option Location
  deriving DecidableEq, Repr, Inhabited

/-- Type parameters in angle brackets, nothing when there are none. -/
def parameterList (params : List String) : String :=
  if params = [] then "" else "<" ++ ", ".intercalate params ++ ">"

namespace TypeDeclaration

def namespace? (t : TypeDeclaration) : Option String := t.namespaceName.filter (· ≠ "")

/-- The dotted name without type parameters, which references are looked up by. -/
def metadataName (t : TypeDeclaration) : String :=
  ".".intercalate (t.namespace?.toList ++ t.enclosing.map (·.name) ++ [t.name])

def qualification (t : TypeDeclaration) : String :=
  match t.namespace? with
  | some n => n ++ "."
  | none => ""

/-- The name in code, with the type parameters of every level. -/
def qualifiedName (t : TypeDeclaration) : String :=
  globalAlias ++ t.qualification ++
    String.join (t.enclosing.map fun e => e.name ++ parameterList e.typeParameters ++ ".") ++
    t.name ++ parameterList t.typeParameters

def reference (t : TypeDeclaration) : TypeReference :=
  { name := t.qualifiedName, primitive := none,
    isValueType := t.kind = .structType || t.kind = .enumType, nullable := false,
    isTypeParameter := false }

def isReferenceType (t : TypeDeclaration) : Bool :=
  t.kind = .classType || t.kind = .recordType || t.kind = .interfaceType

def hasAttribute (t : TypeDeclaration) (name : String) : Bool :=
  t.attributes.any fun a => a.simpleName = name

end TypeDeclaration

structure Options where
  /-- Each unit starts with the directive that turns nullable annotations on. -/
  nullableDirective : Bool := true
  /-- Generated fields, properties and accessors name the tool in an attribute. -/
  generatedCodeAttribute : Bool := true
  toolName : String := "bindable-compiler"
  toolVersion : String := "0.1.0"
  runAnalyzers : Bool := true
  deriving DecidableEq, Repr, Inhabited

structure Compilation where
  assemblyName : String := ""
  referencedAssemblies : List String := []
  types : List TypeDeclaration := []
  /-- Types known from references, looked up but not searched for markers. -/
  externalTypes : List TypeDeclaration := []
  options : Options := {}
  deriving DecidableEq, Repr, Inhabited

end Bindable
