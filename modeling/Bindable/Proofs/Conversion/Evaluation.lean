import Bindable.Conversion
import Mathlib.Data.Int.ModEq

/-! The kind and the value of an expression, as a compiler determines them for constants. A literal
out of the range of its kind has neither, and a cast of a constant keeps the number or, where casts
are unchecked, wraps it around. -/

namespace Bindable

namespace IntegerKind

def width : IntegerKind → Nat
  | sbyte | byte => 8
  | short | ushort => 16
  | int | uint => 32
  | long | ulong => 64

theorem greatest_eq (k : IntegerKind) : k.greatest = k.least + 2 ^ k.width - 1 := by
  cases k <;> rfl

end IntegerKind

namespace Primitive

/-- The bits of a value of a kind of whole numbers. -/
def width : Primitive → Nat
  | char => 16
  | integer k => k.width
  | _ => 0

theorem range?_eq {p : Primitive} {lo hi : Int} (h : p.range? = some (lo, hi)) :
    hi = lo + 2 ^ p.width - 1 := by
  cases p with
  | char =>
    obtain ⟨rfl, rfl⟩ : 0 = lo ∧ 65535 = hi := by simpa [range?] using h
    rfl
  | integer k =>
    obtain ⟨rfl, rfl⟩ : k.least = lo ∧ k.greatest = hi := by simpa [range?] using h
    exact k.greatest_eq
  | _ => simp [range?] at h

theorem range?_isSome_iff {p : Primitive} :
    p.range?.isSome = true ↔ p = .char ∨ p.isIntegral = true := by
  cases p <;> simp [range?, isIntegral]

theorem fits_iff {p : Primitive} {n : Int} :
    p.fits n = true ↔ ∃ lo hi, p.range? = some (lo, hi) ∧ lo ≤ n ∧ n ≤ hi := by
  cases h : p.range? with
  | none => simp [fits, h]
  | some r => simp [fits, h, Prod.ext_iff]

theorem fits_integer {k : IntegerKind} {n : Int} : (integer k).fits n = true ↔ k.Holds n := by
  simp [fits, range?, IntegerKind.Holds]

/-- The number of the kind's range that differs by a multiple of `2 ^ width`. -/
def wrap? (p : Primitive) (n : Int) : Option Int :=
  p.range?.map fun r => r.1 + (n - r.1) % 2 ^ p.width

theorem wrap?_eq_some {p : Primitive} (h : p.range?.isSome = true) (n : Int) :
    ∃ m, p.wrap? n = some m ∧ p.fits m = true ∧ m ≡ n [ZMOD 2 ^ p.width] := by
  obtain ⟨⟨lo, hi⟩, hr⟩ := Option.isSome_iff_exists.mp h
  have hpos : (0 : Int) < 2 ^ p.width := Int.pow_pos (by decide)
  have hlow := Int.emod_nonneg (n - lo) hpos.ne'
  have hhigh := Int.emod_lt_of_pos (n - lo) hpos
  refine ⟨lo + (n - lo) % 2 ^ p.width, by simp [wrap?, hr], ?_, ?_⟩
  · refine fits_iff.mpr ⟨lo, hi, hr, by omega, ?_⟩
    rw [range?_eq hr]
    omega
  · calc lo + (n - lo) % 2 ^ p.width
        ≡ lo + (n - lo) [ZMOD 2 ^ p.width] := (Int.mod_modEq _ _).add_left lo
      _ = n := by omega

/-- An integer kind takes every other kind whose range it includes. -/
theorem widensTo_integer_iff (source : Primitive) (k : IntegerKind) :
    source.widensTo (.integer k) ↔
      source ≠ .integer k ∧ source.range?.any fun r => k.least ≤ r.1 && r.2 ≤ k.greatest := by
  cases source with
  | integer j => cases j <;> cases k <;> decide
  | _ => cases k <;> decide

/-- A real kind takes every kind of whole numbers, and `double` takes `float` as well. -/
theorem widensTo_iff_of_isReal (source : Primitive) {target : Primitive} (ht : target.isReal) :
    source.widensTo target ↔ source.range?.isSome ∨ source = .float ∧ target = .double := by
  cases source with
  | integer j => cases j <;> cases target <;> first | contradiction | decide
  | _ => cases target <;> first | contradiction | decide

theorem widensTo_eq_false (source : Primitive) {target : Primitive} (hk : ¬ target.isIntegral)
    (hr : ¬ target.isReal) : source.widensTo target = false := by
  cases target <;> first | contradiction | rfl

theorem fits_of_widensTo {source target : Primitive} {n : Int}
    (h : source.widensTo target = true) (ht : target.range?.isSome = true)
    (hn : source.fits n = true) : target.fits n = true := by
  obtain ⟨lo, hi, hr, hlo, hhi⟩ := fits_iff.mp hn
  cases target with
  | integer k =>
    have hk : k.least ≤ lo ∧ hi ≤ k.greatest := by
      simpa [hr] using ((widensTo_integer_iff source k).mp h).2
    exact fits_integer.mpr ⟨by omega, by omega⟩
  | char => exact absurd h (by simp [widensTo_eq_false, isIntegral, isReal])
  | _ => simp [range?] at ht

theorem fits_of_convertsTo {source target : Primitive} {n : Int}
    (h : source.convertsTo target = true) (ht : target.range?.isSome = true)
    (hn : source.fits n = true) : target.fits n = true := by
  have hc : (source = target ∨ target = .object) ∨ source.widensTo target = true := by
    simpa [convertsTo] using h
  rcases hc with (rfl | rfl) | hw
  · exact hn
  · simp [range?] at ht
  · exact fits_of_widensTo hw ht hn

end Primitive

namespace Literal

/-- Null counts as a text. -/
def kind? : Literal → Option Primitive
  | null | string _ => some .string
  | bool _ => some .bool
  | char _ => some .char
  | integer kind value => if kind.fits value then some kind else none
  | real kind _ => if kind.isReal then some kind else none

def number? : Literal → Option Int
  | char unit => some unit.toNat
  | integer kind value => if kind.fits value then some value else none
  | _ => none

end Literal

namespace Expr

/-- A cast has the kind it names, checked or not. -/
def kind? : Expr → Option Primitive
  | literal l => l.kind?
  | cast type _ => Primitive.ofKeyword? type
  | unchecked operand => operand.kind?
  | _ => none

/-- The number that a constant expression stands for, where casts wrap around or, if they do not,
have to keep the number. -/
def valueWhere? (wraps : Bool) : Expr → Option Int
  | literal l => l.number?
  | cast type operand => do
    let n ← operand.valueWhere? wraps
    let target ← Primitive.ofKeyword? type
    if target.fits n then some n else if wraps then target.wrap? n else none
  | unchecked operand => operand.valueWhere? true
  | _ => none

/-- Outside of `unchecked` a constant cast that changes the number is an error. -/
def value? (e : Expr) : Option Int := e.valueWhere? false

def isLiteral : Expr → Bool
  | literal _ => true
  | _ => false

end Expr

end Bindable
