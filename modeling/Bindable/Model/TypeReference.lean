import Bindable.Model.Primitive

/-! References to types, by name. -/

namespace Bindable

/-- The alias that starts a fully qualified name. -/
def globalAlias : String := "global::"

structure TypeReference where
  /-- Dotted, perhaps after the global alias, perhaps with type arguments. -/
  name : String
  /-- A primitive is shown by its keyword, whatever the name says. -/
  primitive : Option Primitive
  isValueType : Bool
  nullable : Bool
  isTypeParameter : Bool
  deriving DecidableEq, Repr, Inhabited

namespace TypeReference

def ofPrimitive (p : Primitive) : TypeReference :=
  { name := p.keyword, primitive := some p, isValueType := !p.isReference, nullable := false,
    isTypeParameter := false }

/-- The name without the global alias and without type arguments. -/
def lookupName (t : TypeReference) : String :=
  String.ofList (((globalAlias.toList.isPrefixOf? t.name.toList).getD t.name.toList).takeWhile
    (· != '<'))

/-- The reference as code, without the mark of nullability. -/
def unannotated (t : TypeReference) : String :=
  match t.primitive with
  | some p => p.keyword
  | none =>
    if t.isTypeParameter || globalAlias.toList.isPrefixOf t.name.toList then t.name
    else globalAlias ++ t.name

def display (t : TypeReference) : String :=
  if t.nullable then t.unannotated ++ "?" else t.unannotated

/-- Only value types keep their mark where the type itself is the operand. -/
def displayAsOperand (t : TypeReference) : String :=
  if t.nullable && t.isValueType then t.display else t.unannotated

/-- Type parameters do not count as references. -/
def isNonNullableReference (t : TypeReference) : Bool :=
  !t.isValueType && !t.nullable && !t.isTypeParameter

end TypeReference

end Bindable
