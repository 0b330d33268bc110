import Bindable.Model.Declaration

/-! Looking up the types of a compilation. A later declaration of a name hides an earlier one, and
the compilation's own types hide external ones. -/

namespace Bindable

/-- Where a declaration stands in its compilation. -/
inductive Origin where
  | external (index : Nat)
  | source (index : Nat)
  deriving DecidableEq, Repr, Inhabited

structure EnumSymbol where
  declaration : TypeDeclaration
  underlying : Primitive
  isFlags : Bool
  deriving DecidableEq, Repr, Inhabited

namespace Compilation

def declarations (c : Compilation) : List (Origin × TypeDeclaration) :=
  c.externalTypes.zipIdx.map (fun (t, i) => (.external i, t)) ++
    c.types.zipIdx.map (fun (t, i) => (.source i, t))

def locateKey? (c : Compilation) (key : String) : Option (Origin × TypeDeclaration) :=
  c.declarations.reverse.find? fun d => d.2.metadataName = key

def locateName? (c : Compilation) (name : String) : Option (Origin × TypeDeclaration) :=
  c.locateKey? (String.ofList (Text.dropLeading globalAlias.toList name.toList))

/-- Primitives and type parameters have no declaration. -/
def locate? (c : Compilation) (t : TypeReference) : Option (Origin × TypeDeclaration) :=
  if t.primitive.isSome || t.isTypeParameter then none else c.locateKey? t.lookupName

def lookup? (c : Compilation) (t : TypeReference) : Option TypeDeclaration :=
  (c.locate? t).map (·.2)

def enumOf? (c : Compilation) (t : TypeReference) : Option EnumSymbol := do
  let d ← c.lookup? t
  if d.kind = .enumType then
    some { declaration := d, underlying := d.underlying.getD (.integer .int),
           isFlags := d.hasAttribute "Flags" }
  else none

end Compilation

namespace EnumSymbol

/-- The first member with a value. -/
def memberWithValue? (s : EnumSymbol) (n : Int) : Option EnumMember :=
  s.declaration.enumMembers.find? fun m => m.value.toInt = n

/-- All bits that some member has, in two's complement. -/
def declaredBits (s : EnumSymbol) : BitVec 128 :=
  s.declaration.enumMembers.foldl (fun bits m => bits ||| BitVec.ofInt 128 m.value.toInt) 0

/-- The number is not negative and has no bit that no member has. -/
def isCombinationOfMembers (s : EnumSymbol) (n : Int) : Bool :=
  0 ≤ n && (BitVec.ofInt 128 n &&& ~~~s.declaredBits) == 0

end EnumSymbol

end Bindable
