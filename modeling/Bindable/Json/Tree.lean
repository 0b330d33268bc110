/-! JSON documents as trees. Nothing is normalised: a number keeps its digits, an object keeps the
order of its fields and every repetition of a key. -/

namespace Bindable

/-- A number as written. The whole part has no leading zeros, so its value fixes its digits. -/
structure Numeral where
  negative : Bool
  whole : Nat
  /-- The digits after the point, none when there is no point. -/
  fraction : List Nat
  exponent : Option Int
  deriving DecidableEq, Repr

inductive Json where
  | null
  | bool (value : Bool)
  | number (value : Numeral)
  /-- `none` stands for a literal that escapes half of a surrogate pair. -/
  | string (value : Option String)
  | array (items : List Json)
  | object (fields : List (Option String × Json))
  deriving Inhabited, Repr

namespace Numeral

def ofInt (n : Int) : Numeral :=
  { negative := decide (n < 0), whole := n.natAbs, fraction := [], exponent := none }

/-- The value of a plain integer. A negative zero is not one. -/
def toInt? (n : Numeral) : Option Int :=
  if n.fraction ≠ [] ∨ n.exponent.isSome then none
  else if n.negative then if n.whole = 0 then none else some (-(n.whole : Int))
  else some n.whole

theorem toInt?_ofInt (n : Int) : (ofInt n).toInt? = some n := by
  by_cases h : n < 0
  · have hz : n.natAbs ≠ 0 := by omega
    have hn : -(n.natAbs : Int) = n := by omega
    simp only [ofInt, toInt?, h, decide_true, if_true, if_neg hz, hn]
    simp
  · have hn : (n.natAbs : Int) = n := by omega
    simp only [ofInt, toInt?, h, decide_false, hn]
    simp

end Numeral

namespace Json

def ofString (s : String) : Json := .string (some s)

def ofInt (n : Int) : Json := .number (.ofInt n)

def ofNat (n : Nat) : Json := .number (.ofInt n)

def ofOption (f : α → Json) : Option α → Json
  | none => .null
  | some a => f a

def ofList (f : α → Json) (items : List α) : Json := .array (items.map f)

def ofFields (fields : List (String × Json)) : Json :=
  .object (fields.map fun p => (some p.1, p.2))

/-- The values under a key, in order of appearance. -/
def valuesOf (key : String) (fields : List (Option String × Json)) : List Json :=
  fields.filterMap fun p => if p.1 = some key then some p.2 else none

end Json

end Bindable
