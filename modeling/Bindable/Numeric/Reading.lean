import Bindable.Json.Tree
import Bindable.Numeric.Floating

/-! The floating-point value of a number in a document. The digits are gathered in a 64-bit
significand as long as they fit, further digits only count, and the power of ten is applied by one
rounded multiplication or division, more than 308 places in steps of 308. So the result may be off
by the last bit. -/

namespace Bindable

/-- Significands stay below this, `2 ^ 64`. -/
def significandLimit : Nat := 18446744073709551616

/-- The longest leading part of a whole number below the limit, and the number of digits left out. -/
def leadingPart (n : Nat) : Nat × Nat :=
  if h : n < significandLimit then (n, 0)
  else
    let p := leadingPart (n / 10)
    (p.1, p.2 + 1)
termination_by n
decreasing_by
  unfold significandLimit at h
  omega

/-- Appends digits to a significand while it stays below the limit, and counts them. -/
def appendDigits (significand : Nat) : List Nat → Nat × Nat
  | [] => (significand, 0)
  | d :: ds =>
    if 10 * significand + d < significandLimit then
      let p := appendDigits (10 * significand + d) ds
      (p.1, p.2 + 1)
    else (significand, 0)

/-- A power of ten as the nearest floating-point number, in units. -/
def powerOfTen (k : Nat) : Nat := binary64.nearest (tenTo k * unitsPerOne) 1

/-- Divides by a power of ten, in steps of at most 308 places. -/
def scaleDown (units k : Nat) : Nat :=
  if h : k ≤ 308 then binary64.nearest (units * unitsPerOne) (powerOfTen k)
  else if units = 0 then 0
  else scaleDown (binary64.nearest (units * unitsPerOne) (powerOfTen 308)) (k - 308)
termination_by k
decreasing_by omega

namespace Numeral

/-- The magnitude in units, `none` when it is out of range. -/
def units? (n : Numeral) : Option Nat :=
  let (leading, left) := leadingPart n.whole
  let (significand, places) := appendDigits leading n.fraction
  let exponent : Int := left - places + n.exponent.getD 0
  let units := binary64.nearest (significand * unitsPerOne) 1
  if exponent < 0 then some (scaleDown units exponent.natAbs)
  else if exponent ≤ 308 then
    let product := binary64.nearest (units * powerOfTen exponent.toNat) unitsPerOne
    if product < twoTo binary64.limit then some product else none
  else if units = 0 then some 0
  else none

def toDouble? (n : Numeral) : Option Floating := n.units?.map (.finite n.negative)

/-- An integer of at most 64 bits: what a whole number is read as. -/
def toWord? (n : Numeral) : Option Int :=
  n.toInt?.filter fun i => -9223372036854775808 ≤ i && i < 18446744073709551616

/-- A 64-bit integer is rounded once, any other number through the large format. -/
def toSingle? (n : Numeral) : Option Floating :=
  match n.toWord? with
  | some i => some (binary32.ofInt i)
  | none => n.toDouble?.map Floating.narrow

end Numeral

end Bindable
