/-! The primitive kinds of C#, each known by its keyword. -/

namespace Bindable

inductive IntegerKind where
  | sbyte | byte | short | ushort | int | uint | long | ulong
  deriving DecidableEq, Repr, Inhabited

namespace IntegerKind

def least : IntegerKind → Int
  | sbyte => -128
  | short => -32768
  | int => -2147483648
  | long => -9223372036854775808
  | byte | ushort | uint | ulong => 0

def greatest : IntegerKind → Int
  | sbyte => 127
  | byte => 255
  | short => 32767
  | ushort => 65535
  | int => 2147483647
  | uint => 4294967295
  | long => 9223372036854775807
  | ulong => 18446744073709551615

/-- The number is a value of the kind. -/
def Holds (k : IntegerKind) (n : Int) : Prop := k.least ≤ n ∧ n ≤ k.greatest

instance (k : IntegerKind) (n : Int) : Decidable (k.Holds n) :=
  inferInstanceAs (Decidable (k.least ≤ n ∧ n ≤ k.greatest))

end IntegerKind

inductive Primitive where
  | bool
  | char
  | integer (kind : IntegerKind)
  | float
  | double
  | decimal
  | string
  | object
  deriving DecidableEq, Repr, Inhabited

namespace Primitive

def all : List Primitive :=
  [bool, char, integer .sbyte, integer .byte, integer .short, integer .ushort, integer .int,
    integer .uint, integer .long, integer .ulong, float, double, decimal, string, object]

def keyword : Primitive → String
  | bool => "bool"
  | char => "char"
  | integer .sbyte => "sbyte"
  | integer .byte => "byte"
  | integer .short => "short"
  | integer .ushort => "ushort"
  | integer .int => "int"
  | integer .uint => "uint"
  | integer .long => "long"
  | integer .ulong => "ulong"
  | float => "float"
  | double => "double"
  | decimal => "decimal"
  | string => "string"
  | object => "object"

def ofKeyword? (s : String) : Option Primitive := all.find? fun p => p.keyword = s

theorem ofKeyword?_keyword (p : Primitive) : ofKeyword? p.keyword = some p := by
  cases p with
  | integer k => cases k <;> rfl
  | _ => rfl

def isReference : Primitive → Bool
  | string | object => true
  | _ => false

/-- The integer kinds; `char` is not one of them. -/
def isIntegral : Primitive → Bool
  | integer _ => true
  | _ => false

def isReal : Primitive → Bool
  | float | double | decimal => true
  | _ => false

/-- The least and the greatest value of a kind of whole numbers, `char` included. -/
def range? : Primitive → Option (Int × Int)
  | char => some (0, 65535)
  | integer k => some (k.least, k.greatest)
  | _ => none

/-- The number is a value of the kind. -/
def fits (p : Primitive) (n : Int) : Bool :=
  match p.range? with
  | some (lo, hi) => lo ≤ n && n ≤ hi
  | none => false

/-- The kinds that widen to a kind. -/
def wideningSources : Primitive → List Primitive
  | integer .short => [integer .sbyte, integer .byte]
  | integer .ushort => [integer .byte, char]
  | integer .int => [integer .sbyte, integer .byte, integer .short, integer .ushort, char]
  | integer .uint => [integer .byte, integer .ushort, char]
  | integer .long =>
    [integer .sbyte, integer .byte, integer .short, integer .ushort, integer .int, integer .uint, char]
  | integer .ulong => [integer .byte, integer .ushort, integer .uint, char]
  | float | decimal =>
    [integer .sbyte, integer .byte, integer .short, integer .ushort, integer .int, integer .uint,
      integer .long, integer .ulong, char]
  | double =>
    [integer .sbyte, integer .byte, integer .short, integer .ushort, integer .int, integer .uint,
      integer .long, integer .ulong, char, float]
  | _ => []

def widensTo (source target : Primitive) : Bool := target.wideningSources.contains source

/-- A value of the source kind may be assigned to the target without a cast. -/
def convertsTo (source target : Primitive) : Bool :=
  source = target || target = object || source.widensTo target

end Primitive

end Bindable
