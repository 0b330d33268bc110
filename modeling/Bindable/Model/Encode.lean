import Bindable.Json.Writer
import Bindable.Model.Decode

/-! Writing a compilation as a document, with every field present. -/

namespace Bindable

open Json (ofString ofFields ofOption ofList)

def Primitive.toJson (p : Primitive) : Json := ofString p.keyword

def TypeReference.toJson (t : TypeReference) : Json :=
  ofFields
    [("name", ofString t.name),
      ("special", ofOption Primitive.toJson t.primitive),
      ("isValueType", .bool t.isValueType),
      ("nullable", .bool t.nullable),
      ("typeParameter", .bool t.isTypeParameter)]

def Location.toJson (l : Location) : Json :=
  ofFields
    [("file", ofString l.file),
      ("line", .ofNat l.line.toNat),
      ("column", .ofNat l.column.toNat)]

/-- The decimal text as a string, or null for what is not finite, where the format itself has a
number. A document with such a payload is for display and is not read back. -/
def Floating.toJson (f : FloatFormat) (x : Floating) : Json :=
  if x.isFinite then ofString (x.text f) else .null

def tagged (tag : ConstantTag) (payload : Json) : Json :=
  ofFields [("kind", ofString tag.word), ("value", payload)]

def Constant.toJson : Constant → Json
  | .null => ofFields [("kind", ofString ConstantTag.null.word)]
  | .bool b => tagged .bool (.bool b)
  | .char c => tagged .char (ofString (String.singleton c))
  | .integer k n _ => tagged (.integer k) (.ofInt n)
  | .single x => tagged .single (x.toJson binary32)
  | .double x => tagged .double (x.toJson binary64)
  | .string s => tagged .string (ofString s)
  | .type t => tagged .type t.toJson
  | .enumeration name n =>
    tagged .enumeration (ofFields [("typeName", ofString name), ("value", .ofInt n.toInt)])

def NamedArgument.toJson (a : NamedArgument) : Json :=
  ofFields [("name", ofString a.name), ("value", a.value.toJson)]

def Attribute.toJson (a : Attribute) : Json :=
  ofFields
    [("name", ofString a.name),
      ("typeArguments", ofList TypeReference.toJson a.typeArguments),
      ("constructorArguments", ofList Constant.toJson a.arguments),
      ("namedArguments", ofList NamedArgument.toJson a.namedArguments),
      ("location", ofOption Location.toJson a.location)]

def EnclosingType.toJson (e : EnclosingType) : Json :=
  ofFields
    [("name", ofString e.name),
      ("kind", ofString e.kind.keyword),
      ("typeParameters", ofList ofString e.typeParameters)]

def EnumMember.toJson (m : EnumMember) : Json :=
  ofFields [("name", ofString m.name), ("value", .ofInt m.value.toInt)]

def Accessor.toJson (a : Accessor) : Json := ofFields [("body", ofOption ofString a.body)]

def Property.toJson (p : Property) : Json :=
  ofFields
    [("name", ofString p.name),
      ("type", p.type.toJson),
      ("isStatic", .bool p.isStatic),
      ("isIndexer", .bool p.isIndexer),
      ("getter", ofOption Accessor.toJson p.getter),
      ("setter", ofOption Accessor.toJson p.setter),
      ("expressionBody", ofOption ofString p.expressionBody),
      ("attributes", ofList Attribute.toJson p.attributes),
      ("location", ofOption Location.toJson p.location)]

def Parameter.toJson (p : Parameter) : Json :=
  ofFields [("name", ofString p.name), ("type", p.type.toJson)]

def Method.toJson (m : Method) : Json :=
  ofFields
    [("name", ofString m.name),
      ("returnType", ofOption TypeReference.toJson m.returnType),
      ("isStatic", .bool m.isStatic),
      ("parameters", ofList Parameter.toJson m.parameters),
      ("body", ofOption ofString m.body),
      ("attributes", ofList Attribute.toJson m.attributes),
      ("location", ofOption Location.toJson m.location)]

def TypeDeclaration.toJson (t : TypeDeclaration) : Json :=
  ofFields
    [("namespace", ofOption ofString t.namespaceName),
      ("name", ofString t.name),
      ("kind", ofString t.kind.keyword),
      ("typeParameters", ofList ofString t.typeParameters),
      ("containingTypes", ofList EnclosingType.toJson t.enclosing),
      ("isStatic", .bool t.isStatic),
      ("attributes", ofList Attribute.toJson t.attributes),
      ("properties", ofList Property.toJson t.properties),
      ("methods", ofList Method.toJson t.methods),
      ("enumUnderlyingType", ofOption Primitive.toJson t.underlying),
      ("enumMembers", ofList EnumMember.toJson t.enumMembers),
      ("location", ofOption Location.toJson t.location)]

def Options.toJson (o : Options) : Json :=
  ofFields
    [("nullableDirective", .bool o.nullableDirective),
      ("generatedCodeAttribute", .bool o.generatedCodeAttribute),
      ("toolName", ofString o.toolName),
      ("toolVersion", ofString o.toolVersion),
      ("runAnalyzers", .bool o.runAnalyzers)]

namespace Compilation

def toJson (c : Compilation) : Json :=
  ofFields
    [("assemblyName", ofString c.assemblyName),
      ("referencedAssemblies", ofList ofString c.referencedAssemblies),
      ("types", ofList TypeDeclaration.toJson c.types),
      ("externalTypes", ofList TypeDeclaration.toJson c.externalTypes),
      ("options", c.options.toJson)]

def write (c : Compilation) : String := c.toJson.render

end Compilation

end Bindable
