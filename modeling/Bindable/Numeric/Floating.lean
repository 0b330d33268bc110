/-! Binary floating point in exact arithmetic. Every finite number of either format is a whole
multiple of `2 ^ -1074`, the unit, so a magnitude is a count of units, one count for one number,
and widening from the small format to the large one changes nothing. -/

namespace Bindable

/-- A power of two. -/
def twoTo (k : Nat) : Nat := Nat.pow 2 k

/-- A power of ten, exactly. -/
def tenTo (k : Nat) : Nat := Nat.pow 10 k

structure FloatFormat where
  /-- Significant bits. -/
  precision : Nat
  /-- The least step between neighbours is `2 ^ least` units. -/
  least : Nat
  /-- Magnitudes of `2 ^ limit` units and more are infinite. -/
  limit : Nat
  deriving DecidableEq, Repr

def binary32 : FloatFormat := { precision := 24, least := 925, limit := 1202 }

def binary64 : FloatFormat := { precision := 53, least := 0, limit := 2098 }

/-- The number of units in one. -/
def unitsPerOne : Nat := twoTo 1074

inductive Floating where
  | finite (negative : Bool) (units : Nat)
  | infinite (negative : Bool)
  deriving DecidableEq, Repr, Inhabited

def bitLength (n : Nat) : Nat := if n = 0 then 0 else n.log2 + 1

/-- The nearest whole number to `num / den`, a tie going to the even one. -/
def nearestEven (num den : Nat) : Nat :=
  let q := num / den
  let r := num % den
  if 2 * r < den ∨ (2 * r = den ∧ q % 2 = 0) then q else q + 1

namespace FloatFormat

/-- The exponent of two of the step between numbers of the format next to a magnitude. -/
def stepExponent (f : FloatFormat) (units : Nat) : Nat :=
  max f.least (bitLength units - f.precision)

/-- The magnitude nearest to `num / den` units, as if the format had no largest number. -/
def nearest (f : FloatFormat) (num den : Nat) : Nat :=
  let step := twoTo (f.stepExponent (num / den))
  nearestEven num (den * step) * step

def round (f : FloatFormat) (negative : Bool) (num den : Nat) : Floating :=
  let units := f.nearest num den
  if units < twoTo f.limit then .finite negative units else .infinite negative

def ofInt (f : FloatFormat) (n : Int) : Floating :=
  f.round (decide (n < 0)) (n.natAbs * unitsPerOne) 1

end FloatFormat

namespace Floating

def isFinite : Floating → Bool
  | .finite .. => true
  | .infinite _ => false

/-- The nearest number of the small format. -/
def narrow : Floating → Floating
  | .finite negative units => binary32.round negative units 1
  | .infinite negative => .infinite negative

/-- The value of a whole number. -/
def toInt? : Floating → Option Int
  | .finite negative units =>
    if units % unitsPerOne = 0 then
      let n : Int := (units / unitsPerOne : Nat)
      some (if negative then -n else n)
    else none
  | .infinite _ => none

end Floating

end Bindable
