import Bindable.Json.Decode
import Bindable.Json.Reader
import Bindable.Model.Declaration

/-! Reading a compilation from a document. -/

namespace Bindable

open Json (required withDefault record? nullable? list?)

def decodePrimitive? (stored : Bool) (j : Json) : Option Primitive :=
  j.tag? stored Primitive.ofKeyword?

def decodeTypeKind? (j : Json) : Option TypeKind := j.tag? false TypeKind.ofKeyword?

/-- An integer in the range of a kind. -/
def decodeInteger? (k : IntegerKind) (j : Json) : Option Int :=
  j.int?.filter fun n => decide (k.Holds n)

def decodeUInt32? (j : Json) : Option UInt32 := (decodeInteger? .uint j).map UInt32.ofInt

def decodeInt64? (j : Json) : Option Int64 := (decodeInteger? .long j).map Int64.ofInt

def decodeTypeReference? (stored : Bool) (j : Json) : Option TypeReference := do
  match ← record? ["name", "special", "isValueType", "nullable", "typeParameter"] j with
  | [name, special, isValueType, nullable, typeParameter] =>
    return {
      name := ← required Json.string? name
      primitive := ← withDefault (nullable? (decodePrimitive? stored)) none special
      isValueType := ← withDefault Json.bool? false isValueType
      nullable := ← withDefault Json.bool? false nullable
      isTypeParameter := ← withDefault Json.bool? false typeParameter }
  | _ => none

def decodeLocation? (j : Json) : Option Location := do
  match ← record? ["file", "line", "column"] j with
  | [file, line, column] =>
    return {
      file := ← required Json.string? file
      line := ← required decodeUInt32? line
      column := ← required decodeUInt32? column }
  | _ => none

/-- The kinds a constant is tagged with. -/
inductive ConstantTag where
  | null | bool | char | integer (kind : IntegerKind) | single | double | string | type
  | enumeration
  deriving DecidableEq, Repr

namespace ConstantTag

def all : List ConstantTag :=
  [null, bool, char, integer .sbyte, integer .byte, integer .short, integer .ushort, integer .int,
    integer .uint, integer .long, integer .ulong, single, double, string, type, enumeration]

def word : ConstantTag → String
  | null => "null"
  | bool => "bool"
  | char => "char"
  | integer k => (Primitive.integer k).keyword
  | single => "float"
  | double => "double"
  | string => "string"
  | type => "type"
  | enumeration => "enum"

def ofWord? (s : String) : Option ConstantTag := all.find? fun t => t.word = s

theorem ofWord?_word (t : ConstantTag) : ofWord? t.word = some t := by
  cases t with
  | integer k => cases k <;> rfl
  | _ => rfl

end ConstantTag

def decodeChar? (j : Json) : Option Char := do
  match (← j.string?).toList with
  | [c] => some c
  | _ => none

def decodeSingle? : Json → Option Floating
  | .number n => n.toSingle?
  | _ => none

def decodeDouble? : Json → Option Floating
  | .number n => n.toDouble?
  | _ => none

/-- Enum values are objects only. -/
def decodeEnumeration? : Json → Option Constant
  | .object fields => do
    match ← record? ["typeName", "value"] (.object fields) with
    | [typeName, value] =>
      return .enumeration (← required Json.string? typeName) (← required decodeInt64? value)
    | _ => none
  | _ => none

def decodePayload? (stored : Bool) (tag : ConstantTag) (j : Json) : Option Constant :=
  match tag with
  | .null =>
    match j with
    | .null => some .null
    | _ => none
  | .bool => j.bool?.map .bool
  | .char => (decodeChar? j).map .char
  | .integer k =>
    j.int?.bind fun n => if h : k.Holds n then some (.integer k n h) else none
  | .single => (decodeSingle? j).map .single
  | .double => (decodeDouble? j).map .double
  | .string => j.string?.map .string
  | .type => (decodeTypeReference? stored j).map .type
  | .enumeration => decodeEnumeration? j

/-- The payload comes before its kind. -/
def payloadFirst : List (Option String × Json) → Bool
  | [] => false
  | (key, _) :: fields =>
    if key = some "value" then true
    else if key = some "kind" then false
    else payloadFirst fields

/-- A constant inside the given number of containers, its own included. A payload that comes before
its kind is stored until the kind is known. In an array the kind is a bare word. -/
def decodeConstant? (depth : Nat) : Json → Option Constant
  | .array [kind, value] => do
    decodePayload? false (← kind.string?.bind ConstantTag.ofWord?) value
  | .object fields => do
    match ← record? ["kind", "value"] (.object fields) with
    | [some kind, some value] =>
      let stored := payloadFirst fields
      if stored && !value.storable (Json.depthLimit - depth) then none
      else decodePayload? stored (← kind.tag? false ConstantTag.ofWord?) value
    | [some kind, none] =>
      match ← kind.tag? false ConstantTag.ofWord? with
      | .null => some .null
      | _ => none
    | _ => none
  | _ => none

def decodeNamedArgument? (depth : Nat) (j : Json) : Option NamedArgument := do
  match ← record? ["name", "value"] j with
  | [name, value] =>
    return {
      name := ← required Json.string? name
      value := ← required (decodeConstant? (depth + 1)) value }
  | _ => none

def decodeAttribute? (depth : Nat) (j : Json) : Option Attribute := do
  match ← record?
      ["name", "typeArguments", "constructorArguments", "namedArguments", "location"] j with
  | [name, typeArguments, arguments, namedArguments, location] =>
    return {
      name := ← required Json.string? name
      typeArguments := ← withDefault (list? (decodeTypeReference? false)) [] typeArguments
      arguments := ← withDefault (list? (decodeConstant? (depth + 2))) [] arguments
      namedArguments := ← withDefault (list? (decodeNamedArgument? (depth + 2))) [] namedArguments
      location := ← withDefault (nullable? decodeLocation?) none location }
  | _ => none

def decodeEnclosingType? (j : Json) : Option EnclosingType := do
  match ← record? ["name", "kind", "typeParameters"] j with
  | [name, kind, typeParameters] =>
    return {
      name := ← required Json.string? name
      kind := ← withDefault decodeTypeKind? .classType kind
      typeParameters := ← withDefault (list? Json.string?) [] typeParameters }
  | _ => none

def decodeEnumMember? (j : Json) : Option EnumMember := do
  match ← record? ["name", "value"] j with
  | [name, value] =>
    return { name := ← required Json.string? name, value := ← required decodeInt64? value }
  | _ => none

def decodeAccessor? (j : Json) : Option Accessor := do
  match ← record? ["body"] j with
  | [body] => return { body := ← withDefault (nullable? Json.string?) none body }
  | _ => none

def decodeProperty? (depth : Nat) (j : Json) : Option Property := do
  match ← record?
      ["name", "type", "isStatic", "isIndexer", "getter", "setter", "expressionBody", "attributes",
        "location"] j with
  | [name, type, isStatic, isIndexer, getter, setter, expressionBody, attributes, location] =>
    return {
      name := ← required Json.string? name
      type := ← required (decodeTypeReference? false) type
      isStatic := ← withDefault Json.bool? false isStatic
      isIndexer := ← withDefault Json.bool? false isIndexer
      getter := ← withDefault (nullable? decodeAccessor?) none getter
      setter := ← withDefault (nullable? decodeAccessor?) none setter
      expressionBody := ← withDefault (nullable? Json.string?) none expressionBody
      attributes := ← withDefault (list? (decodeAttribute? (depth + 2))) [] attributes
      location := ← withDefault (nullable? decodeLocation?) none location }
  | _ => none

def decodeParameter? (j : Json) : Option Parameter := do
  match ← record? ["name", "type"] j with
  | [name, type] =>
    return {
      name := ← required Json.string? name
      type := ← required (decodeTypeReference? false) type }
  | _ => none

def decodeMethod? (depth : Nat) (j : Json) : Option Method := do
  match ← record?
      ["name", "returnType", "isStatic", "parameters", "body", "attributes", "location"] j with
  | [name, returnType, isStatic, parameters, body, attributes, location] =>
    return {
      name := ← required Json.string? name
      returnType := ← withDefault (nullable? (decodeTypeReference? false)) none returnType
      isStatic := ← withDefault Json.bool? false isStatic
      parameters := ← withDefault (list? decodeParameter?) [] parameters
      body := ← withDefault (nullable? Json.string?) none body
      attributes := ← withDefault (list? (decodeAttribute? (depth + 2))) [] attributes
      location := ← withDefault (nullable? decodeLocation?) none location }
  | _ => none

def decodeTypeDeclaration? (depth : Nat) (j : Json) : Option TypeDeclaration := do
  match ← record?
      ["namespace", "name", "kind", "typeParameters", "containingTypes", "isStatic", "attributes",
        "properties", "methods", "enumUnderlyingType", "enumMembers", "location"] j with
  | [namespaceName, name, kind, typeParameters, enclosing, isStatic, attributes, properties,
      methods, underlying, enumMembers, location] =>
    return {
      namespaceName := ← withDefault (nullable? Json.string?) none namespaceName
      name := ← required Json.string? name
      kind := ← withDefault decodeTypeKind? .classType kind
      typeParameters := ← withDefault (list? Json.string?) [] typeParameters
      enclosing := ← withDefault (list? decodeEnclosingType?) [] enclosing
      isStatic := ← withDefault Json.bool? false isStatic
      attributes := ← withDefault (list? (decodeAttribute? (depth + 2))) [] attributes
      properties := ← withDefault (list? (decodeProperty? (depth + 2))) [] properties
      methods := ← withDefault (list? (decodeMethod? (depth + 2))) [] methods
      underlying := ← withDefault (nullable? (decodePrimitive? false)) none underlying
      enumMembers := ← withDefault (list? decodeEnumMember?) [] enumMembers
      location := ← withDefault (nullable? decodeLocation?) none location }
  | _ => none

def decodeOptions? (j : Json) : Option Options := do
  match ← record?
      ["nullableDirective", "generatedCodeAttribute", "toolName", "toolVersion",
        "runAnalyzers"] j with
  | [nullableDirective, generatedCodeAttribute, toolName, toolVersion, runAnalyzers] =>
    let default : Options := {}
    return {
      nullableDirective := ← withDefault Json.bool? default.nullableDirective nullableDirective
      generatedCodeAttribute :=
        ← withDefault Json.bool? default.generatedCodeAttribute generatedCodeAttribute
      toolName := ← withDefault Json.string? default.toolName toolName
      toolVersion := ← withDefault Json.string? default.toolVersion toolVersion
      runAnalyzers := ← withDefault Json.bool? default.runAnalyzers runAnalyzers }
  | _ => none

namespace Compilation

def ofJson? (j : Json) : Option Compilation := do
  match ← record?
      ["assemblyName", "referencedAssemblies", "types", "externalTypes", "options"] j with
  | [assemblyName, referencedAssemblies, types, externalTypes, options] =>
    return {
      assemblyName := ← withDefault Json.string? "" assemblyName
      referencedAssemblies := ← withDefault (list? Json.string?) [] referencedAssemblies
      types := ← withDefault (list? (decodeTypeDeclaration? 3)) [] types
      externalTypes := ← withDefault (list? (decodeTypeDeclaration? 3)) [] externalTypes
      options := ← withDefault decodeOptions? {} options }
  | _ => none

def parse? (text : String) : Option Compilation := (Json.parse? text).bind ofJson?

end Compilation

end Bindable
