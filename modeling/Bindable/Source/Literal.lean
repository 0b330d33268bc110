import Bindable.Model.Primitive

/-! Literals of the generated code and their spelling. -/

namespace Bindable

inductive Literal where
  | null
  | bool (value : Bool)
  /-- One UTF-16 unit. -/
  | char (unit : UInt16)
  | string (value : String)
  | integer (kind : Primitive) (value : Int)
  /-- The text is the plain decimal number, without a suffix. -/
  | real (kind : Primitive) (text : String)
  deriving DecidableEq, Repr, Inhabited

def upperHexDigit (n : Nat) : Char := Char.ofNat (if n < 10 then n + 48 else n + 55)

/-- Four hexadecimal digits. -/
def hex4 (n : Nat) : List Char :=
  [upperHexDigit (n / 4096 % 16), upperHexDigit (n / 256 % 16), upperHexDigit (n / 16 % 16),
    upperHexDigit (n % 16)]

namespace Literal

/-- A unit between single quotes: printable ASCII stands for itself. -/
def escapeUnit (unit : UInt16) : List Char :=
  if unit = 0x27 then ['\\', '\'']
  else if unit = 0x5C then ['\\', '\\']
  else if 0x20 ≤ unit ∧ unit ≤ 0x7E then [Char.ofNat unit.toNat]
  else '\\' :: 'u' :: hex4 unit.toNat

def isControl (c : Char) : Bool := c.toNat < 0x20 || 0x7F ≤ c.toNat && c.toNat ≤ 0x9F

/-- A character between double quotes. -/
def escapeChar (c : Char) : List Char :=
  if c = '"' then ['\\', '"']
  else if c = '\\' then ['\\', '\\']
  else if c = '\n' then ['\\', 'n']
  else if c = '\r' then ['\\', 'r']
  else if c = '\t' then ['\\', 't']
  else if c = '\x00' then ['\\', '0']
  else if isControl c then '\\' :: 'u' :: hex4 c.toNat
  else [c]

def quote (s : String) : String := "\"" ++ String.ofList (s.toList.flatMap escapeChar) ++ "\""

/-- Kinds without a suffix of their own are given by a cast, which keeps the constant's kind. -/
def renderInteger (kind : Primitive) (value : Int) : String :=
  match kind with
  | .integer .int => toString value
  | .integer .uint => toString value ++ "U"
  | .integer .long => toString value ++ "L"
  | .integer .ulong => toString value ++ "UL"
  | _ => "(" ++ kind.keyword ++ ")" ++ toString value

def realSuffix : Primitive → String
  | .float => "F"
  | .decimal => "M"
  | _ => "D"

def render : Literal → String
  | null => "null"
  | bool b => if b then "true" else "false"
  | char unit => "'" ++ String.ofList (escapeUnit unit) ++ "'"
  | string s => quote s
  | integer kind value => renderInteger kind value
  | real kind text => text ++ realSuffix kind

end Literal

end Bindable
