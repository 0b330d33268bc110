import Bindable.Numeric.Floating

/-! The shortest decimal text that reads back as the same number. Of the decimal grids, coarsest
first, the first one with a point in the interval of reals that round to the number is taken, and of
two such points the nearer. The text is positional at every magnitude. -/

namespace Bindable

/-- The number `digits * 10 ^ exponent`. -/
structure Decimal where
  digits : Nat
  exponent : Int
  deriving DecidableEq, Repr

/-- The reals that round to a number, in quarters of a unit. -/
structure RoundingInterval where
  lower : Nat
  value : Nat
  upper : Nat
  /-- The ends belong to the interval. -/
  closed : Bool
  deriving DecidableEq, Repr

namespace RoundingInterval

/-- Below a power of two the neighbour is half as far. An even significand wins its ties. -/
def ofUnits (f : FloatFormat) (units : Nat) : RoundingInterval :=
  let step := twoTo (f.stepExponent units)
  let significand := units / step
  { lower := 4 * units - (if significand = twoTo (f.precision - 1) then step else 2 * step)
    value := 4 * units
    upper := 4 * units + 2 * step
    closed := significand % 2 = 0 }

/-- The point of the grid `10 ^ g` in the interval that is nearest to the value, the upper one of
two equally near. -/
def gridPoint? (i : RoundingInterval) (g : Int) : Option Nat :=
  let pointScale := 4 * unitsPerOne * tenTo g.toNat
  let valueScale := tenTo (-g).toNat
  let below := i.value * valueScale / pointScale
  let above := below + 1
  let lowerFits :=
    i.lower * valueScale < below * pointScale ||
      i.closed && i.lower * valueScale == below * pointScale
  let upperFits :=
    above * pointScale < i.upper * valueScale ||
      i.closed && above * pointScale == i.upper * valueScale
  if lowerFits && upperFits then
    if pointScale ≤ 2 * (i.value * valueScale % pointScale) then some above else some below
  else if lowerFits then some below
  else if upperFits then some above
  else none

/-- Searches the grids from `10 ^ g` downwards. -/
def search (i : RoundingInterval) : Nat → Int → Decimal
  | 0, g => { digits := 0, exponent := g }
  | n + 1, g =>
    match i.gridPoint? g with
    | some digits => { digits, exponent := g }
    | none => i.search n (g - 1)

end RoundingInterval

/-- No number reaches `10 ^ 309`, and no two numbers share a point of the grid `10 ^ -324`. -/
def FloatFormat.shortest (f : FloatFormat) (units : Nat) : Decimal :=
  if units = 0 then { digits := 0, exponent := 0 }
  else (RoundingInterval.ofUnits f units).search 640 309

def zeros (n : Nat) : List Char := List.replicate n '0'

def Decimal.chars (d : Decimal) : List Char :=
  let digits := Nat.toDigits 10 d.digits
  let places := (-d.exponent).toNat
  if places = 0 then digits ++ zeros d.exponent.toNat
  else if places < digits.length then
    digits.take (digits.length - places) ++ '.' :: digits.drop (digits.length - places)
  else '0' :: '.' :: (zeros (places - digits.length) ++ digits)

namespace Floating

def sign (negative : Bool) : String := if negative then "-" else ""

def text (f : FloatFormat) : Floating → String
  | .finite negative units => sign negative ++ String.ofList (f.shortest units).chars
  | .infinite negative => sign negative ++ "inf"

end Floating

end Bindable
