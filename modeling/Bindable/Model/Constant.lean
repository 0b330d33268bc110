import Bindable.Model.TypeReference
import Bindable.Numeric.Shortest

/-! Attribute arguments, as the compiler evaluated them. -/

namespace Bindable

inductive Constant where
  | null
  | bool (value : Bool)
  | char (value : Char)
  | integer (kind : IntegerKind) (value : Int) (holds : kind.Holds value)
  | single (value : Floating)
  | double (value : Floating)
  | string (value : String)
  | type (value : TypeReference)
  | enumeration (typeName : String) (value : Int64)
  deriving DecidableEq, Repr, Inhabited

namespace Constant

/-- The whole number that an integer, a character or an enum value carries. -/
def toInt? : Constant → Option Int
  | char c => some c.toNat
  | integer _ n _ => some n
  | enumeration _ n => some n.toInt
  | _ => none

def toBool? : Constant → Option Bool
  | bool b => some b
  | _ => none

def isNull : Constant → Bool
  | null => true
  | _ => false

/-- The kind of a constant that has one of its own; enum values have none. -/
def kind? : Constant → Option Primitive
  | bool _ => some .bool
  | char _ => some .char
  | integer k _ _ => some (.integer k)
  | single _ => some .float
  | double _ => some .double
  | string _ => some .string
  | null | type _ | enumeration .. => none

def toFloating? : Constant → Option Floating
  | single v | double v => some v
  | _ => none

/-- A character that two UTF-16 units are needed for. -/
def isSupplementary : Constant → Bool
  | char c => 0xFFFF < c.toNat
  | _ => false

/-- The constant as messages show it. -/
def describe : Constant → String
  | null => "null"
  | bool b => if b then "true" else "false"
  | char c => c.toString
  | integer _ n _ => toString n
  | single v => v.text binary32
  | double v => v.text binary64
  | string s => s
  | type t => "typeof(" ++ t.displayAsOperand ++ ")"
  | enumeration name n => "(" ++ name ++ ")" ++ toString n.toInt

end Constant

end Bindable
