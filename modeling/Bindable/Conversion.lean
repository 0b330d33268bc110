import Bindable.Model.Symbols
import Bindable.Source.Expr

/-! Default values as expressions. A default is stored as an object, so its expression has exactly
the kind of the property: the constant 5 for a property of kind `long` becomes `5L`. -/

namespace Bindable

def integerLiteral (kind : Primitive) (n : Int) : Expr :=
  if kind = .char then .literal (.char (UInt16.ofInt n)) else .literal (.integer kind n)

/-- A conversion that wraps around. -/
def uncheckedCast (target : Primitive) (source : Expr) : Expr :=
  .unchecked (.cast target.keyword source)

/-- Of kind `int` if the number fits, else of kind `long`. -/
def naturalInteger (n : Int) : Expr :=
  if (Primitive.integer .int).fits n then integerLiteral (.integer .int) n
  else integerLiteral (.integer .long) n

/-- The literal of a constant in its own kind. -/
def Constant.literal? (v : Constant) : Option Expr :=
  if v.isSupplementary then none
  else
    match v with
    | .null => some .null
    | .bool b => some (.literal (.bool b))
    | .char c => some (integerLiteral .char c.toNat)
    | .integer kind n _ => some (integerLiteral (.integer kind) n)
    | .single x => some (.literal (.real .float (x.text binary32)))
    | .double x => some (.literal (.real .double (x.text binary64)))
    | .string s => some (.literal (.string s))
    | .type t => some (.typeOf t.displayAsOperand)
    | .enumeration .. => none

def convertInteger? (n : Int) (source : Expr) (target : Primitive) (implicit : Bool) :
    Option Expr :=
  if target.isReal then some (.literal (.real target (toString n)))
  else if target.range?.isNone then none
  else if implicit || target.fits n then some (integerLiteral target n)
  else some (uncheckedCast target source)

/-- The bound that a `decimal` stays below, in units: 7.9e28. -/
def decimalBound : Nat := binary64.nearest (79 * tenTo 27 * unitsPerOne) 1

def convertReal? (v : Constant) (x : Floating) (target : Primitive) : Option Expr := do
  let .finite _ units := x | none
  let source ← v.literal?
  match target with
  | .double => some (.literal (.real .double (x.text binary64)))
  | .float =>
    if x.narrow = x then some (.literal (.real .float (x.text binary32)))
    else some (uncheckedCast .float source)
  | .decimal =>
    if units < decimalBound then
      let format := match v with
        | .single _ => binary32
        | _ => binary64
      some (.literal (.real .decimal (x.text format)))
    else none
  | _ =>
    if target.range?.isNone then none
    else
      match x.toInt? with
      | some n =>
        if target.fits n then some (integerLiteral target n) else some (uncheckedCast target source)
      | none => some (uncheckedCast target source)

/-- The constant as an expression of exactly the target kind. -/
def Constant.convert? (v : Constant) (target : Primitive) : Option Expr :=
  if v.isSupplementary then none
  else
    match target with
    | .object =>
      match v with
      | .enumeration name n =>
        some (.cast (globalAlias ++ String.ofList
          (Text.dropLeadings globalAlias.toList name.toList)) (naturalInteger n.toInt))
      | _ => v.literal?
    | .string =>
      match v with
      | .null | .string _ => v.literal?
      | _ => none
    | .bool =>
      match v with
      | .bool _ => v.literal?
      | _ => none
    | _ =>
      match v.toInt? with
      | some n =>
        let implicit := match v.kind? with
          | some source => source.convertsTo target
          | none => false
        convertInteger? n (v.literal?.getD (naturalInteger n)) target implicit
      | none => v.toFloating?.bind fun x => convertReal? v x target

/-- A value of an enum: a member, or a cast when the enum combines flags or the constant is already
one of the enum's. -/
def Constant.convertToEnum? (v : Constant) (symbol : EnumSymbol) (display : String) :
    Option Expr := do
  let n ← v.toInt?
  match symbol.memberWithValue? n with
  | some m => some (.member (.ident display) m.name)
  | none =>
    let typed := match v with
      | .enumeration name _ =>
        String.ofList (Text.dropLeadings globalAlias.toList name.toList) =
          symbol.declaration.metadataName
      | _ => false
    if typed || symbol.isFlags && symbol.isCombinationOfMembers n then
      let value ← match v with
        | .enumeration .. => convertInteger? n (naturalInteger n) symbol.underlying false
        | _ => v.convert? symbol.underlying
      some (.cast display value)
    else none

/-- The default of a property of a type. Null stands for itself where the type has it. -/
def Compilation.convertDefault? (c : Compilation) (v : Constant) (t : TypeReference) :
    Option Expr :=
  match c.enumOf? t with
  | some symbol =>
    if v.isNull then if t.nullable then some .null else none
    else v.convertToEnum? symbol t.unannotated
  | none =>
    if v.isNull then if !t.isValueType || t.nullable then some .null else none
    else t.primitive.bind v.convert?

end Bindable
