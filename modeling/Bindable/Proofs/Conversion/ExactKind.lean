import Bindable.Proofs.Conversion.Evaluation

/-! A converted constant has exactly the kind it was converted to, and the number of a converted
integer is the constant's own, wrapped around only where the kind cannot hold it. -/

namespace Bindable

section Literals

variable {p : Primitive} {k : IntegerKind} {n : Int} {v : Constant} {e : Expr}

theorem integerLiteral_of_fits (h : p.fits n = true) :
    ∃ l, integerLiteral p n = .literal l ∧ l.kind? = some p ∧ l.number? = some n := by
  by_cases hc : p = .char
  · subst hc
    have hb : 0 ≤ n ∧ n ≤ 65535 := by simpa [Primitive.fits, Primitive.range?] using h
    have hn : ((UInt16.ofInt n).toNat : Int) = n := by
      simp only [UInt16.ofInt, UInt16.toNat_ofNat']
      omega
    exact ⟨.char (UInt16.ofInt n), by simp [integerLiteral], rfl, by simp [Literal.number?, hn]⟩
  · exact ⟨.integer p n, by simp [integerLiteral, hc], by simp [Literal.kind?, h],
      by simp [Literal.number?, h]⟩

theorem naturalInteger_of_holds (h : IntegerKind.long.Holds n) :
    ∃ l, naturalInteger n = .literal l ∧ l.number? = some n := by
  have hl : ∃ k : IntegerKind, naturalInteger n = integerLiteral (.integer k) n ∧
      (Primitive.integer k).fits n = true := by
    by_cases hi : (Primitive.integer .int).fits n = true
    · exact ⟨.int, by simp [naturalInteger, hi], hi⟩
    · exact ⟨.long, by simp [naturalInteger, hi], Primitive.fits_integer.mpr h⟩
  obtain ⟨k, hk, hf⟩ := hl
  obtain ⟨l, he, -, hn⟩ := integerLiteral_of_fits hf
  exact ⟨l, hk.trans he, hn⟩

theorem Int64.holds_long (n : Int64) : IntegerKind.long.Holds n.toInt := by
  have hlo := n.le_toInt
  have hhi := n.toInt_lt
  simp only [IntegerKind.Holds, IntegerKind.least, IntegerKind.greatest]
  omega

theorem Constant.fits_kind {source : Primitive} (hn : v.toInt? = some n)
    (hs : v.isSupplementary = false) (hk : v.kind? = some source) : source.fits n = true := by
  cases v with
  | char c =>
    obtain rfl : (c.toNat : Int) = n := by simpa [Constant.toInt?] using hn
    obtain rfl : .char = source := by simpa [Constant.kind?] using hk
    have hc : c.toNat ≤ 65535 := by simpa [Constant.isSupplementary] using hs
    exact Primitive.fits_iff.mpr ⟨0, 65535, rfl, by omega, by omega⟩
  | integer k m holds =>
    obtain rfl : m = n := by simpa [Constant.toInt?] using hn
    obtain rfl : .integer k = source := by simpa [Constant.kind?] using hk
    exact Primitive.fits_integer.mpr holds
  | _ => simp_all [Constant.toInt?, Constant.kind?]

theorem Constant.operand_number (hn : v.toInt? = some n) (hs : v.isSupplementary = false) :
    ∃ l, v.literal?.getD (naturalInteger n) = .literal l ∧ l.number? = some n := by
  cases v with
  | char c =>
    have hf := Constant.fits_kind hn hs rfl
    obtain rfl : (c.toNat : Int) = n := by simpa [Constant.toInt?] using hn
    obtain ⟨l, he, -, hl⟩ := integerLiteral_of_fits hf
    exact ⟨l, by simpa [Constant.literal?, hs] using he, hl⟩
  | integer k m holds =>
    have hf := Constant.fits_kind hn hs rfl
    obtain rfl : m = n := by simpa [Constant.toInt?] using hn
    obtain ⟨l, he, -, hl⟩ := integerLiteral_of_fits hf
    exact ⟨l, by simpa [Constant.literal?, hs] using he, hl⟩
  | enumeration name m =>
    obtain rfl : m.toInt = n := by simpa [Constant.toInt?] using hn
    obtain ⟨l, he, hl⟩ := naturalInteger_of_holds (Int64.holds_long m)
    exact ⟨l, by simpa [Constant.literal?, hs] using he, hl⟩
  | _ => simp [Constant.toInt?] at hn

end Literals

section Casts

variable {target : Primitive} {n m : Int} {l : Literal} {e : Expr}

@[simp] theorem uncheckedCast_kind? (target : Primitive) (e : Expr) :
    (uncheckedCast target e).kind? = some target :=
  Primitive.ofKeyword?_keyword target

theorem uncheckedCast_value? (hl : l.number? = some n) (hf : target.fits n = false) :
    (uncheckedCast target (.literal l)).value? = target.wrap? n := by
  simp [uncheckedCast, Expr.value?, Expr.valueWhere?, hl, Primitive.ofKeyword?_keyword, hf]

theorem literalOrCast_kind? (target : Primitive) (n : Int) (e : Expr) :
    (if target.fits n then integerLiteral target n else uncheckedCast target e).kind? =
      some target := by
  cases hf : target.fits n with
  | true =>
    obtain ⟨l, hl, hk, -⟩ := integerLiteral_of_fits hf
    simp [hl, Expr.kind?, hk]
  | false => simp

/-- Without an implicit conversion beyond the range, a literal stands exactly for the numbers that
fit. -/
theorem convertInteger?_eq (ht : target.range?.isSome = true) {implicit : Bool}
    (hi : implicit = true → target.fits n = true) :
    convertInteger? n e target implicit =
      some (if target.fits n then integerLiteral target n else uncheckedCast target e) := by
  have hreal : target.isReal = false := by
    rcases Primitive.range?_isSome_iff.mp ht with rfl | hk
    · rfl
    · cases target <;> simp_all [Primitive.isIntegral, Primitive.isReal]
  have hnone : target.range?.isNone = false := by simpa using ht
  cases hf : target.fits n with
  | true => simp [convertInteger?, hreal, hnone, hf]
  | false =>
    have himp : implicit = false := by simpa [hf] using hi
    simp [convertInteger?, hreal, hnone, hf, himp]

theorem convertInteger?_kind? {implicit : Bool}
    (hi : implicit = true → target.range?.isSome = true → target.fits n = true)
    (h : convertInteger? n e target implicit = some e') : e'.kind? = some target := by
  by_cases hreal : target.isReal = true
  · have he : .literal (.real target (toString n)) = e' := by simpa [convertInteger?, hreal] using h
    simp [← he, Expr.kind?, Literal.kind?, hreal]
  by_cases hr : target.range?.isSome = true
  · rw [convertInteger?_eq hr (fun hh => hi hh hr)] at h
    obtain rfl := Option.some.inj h
    exact literalOrCast_kind? target n e
  · have hnone : target.range?.isNone = true := by simpa using hr
    simp [convertInteger?, hreal, hnone] at h

@[simp] theorem Expr.kind?_real (hr : target.isReal = true) (text : String) :
    (Expr.literal (.real target text)).kind? = some target := by
  simp [Expr.kind?, Literal.kind?, hr]

theorem convertInteger?_cases {source : Expr} {implicit : Bool}
    (h : convertInteger? n source target implicit = some e) :
    (target.isReal ∧ e = .literal (.real target (toString n))) ∨
    ((implicit || target.fits n) = true ∧ e = integerLiteral target n) ∨
    ((implicit || target.fits n) = false ∧ e = uncheckedCast target source) := by
  rw [convertInteger?] at h
  split at h
  next hreal => exact .inl ⟨hreal, (Option.some.inj h).symm⟩
  next =>
    split at h
    · cases h
    cases hliteral : implicit || target.fits n with
    | true => exact .inr (.inl ⟨rfl, by simpa [hliteral] using h.symm⟩)
    | false => exact .inr (.inr ⟨rfl, by simpa [hliteral] using h.symm⟩)

/-- Only a finite number is converted. It becomes a literal, or else its own literal is cast. -/
theorem convertReal?_cases {v : Constant} {x : Floating} (h : convertReal? v x target = some e) :
    x.isFinite ∧ ∃ source, v.literal? = some source ∧
      ((target.isReal ∧ ∃ f, e = .literal (.real target (x.text f))) ∨
      (∃ n, x.toInt? = some n ∧ target.fits n ∧ e = integerLiteral target n) ∨
      e = uncheckedCast target source) := by
  cases x with
  | infinite negative => cases h
  | finite negative units =>
    obtain ⟨source, hsource, h⟩ := Option.bind_eq_some_iff.mp h
    refine ⟨rfl, source, hsource, ?_⟩
    split at h
    next => exact .inl ⟨rfl, _, (Option.some.inj h).symm⟩
    next =>
      split at h
      · exact .inl ⟨rfl, _, (Option.some.inj h).symm⟩
      · exact .inr (.inr (Option.some.inj h).symm)
    next =>
      obtain ⟨-, h⟩ := Option.ite_none_right_eq_some.mp h
      exact .inl ⟨rfl, _, (Option.some.inj h).symm⟩
    next =>
      obtain ⟨-, h⟩ := Option.ite_none_left_eq_some.mp h
      split at h
      next n hn =>
        split at h
        next hf => exact .inr (.inl ⟨n, hn, hf, (Option.some.inj h).symm⟩)
        next => exact .inr (.inr (Option.some.inj h).symm)
      next => exact .inr (.inr (Option.some.inj h).symm)

theorem convertReal?_kind? {v : Constant} {x : Floating} (h : convertReal? v x target = some e) :
    e.kind? = some target := by
  obtain ⟨-, source, -, ⟨hreal, f, rfl⟩ | ⟨n, -, hf, rfl⟩ | rfl⟩ := convertReal?_cases h
  · exact Expr.kind?_real hreal _
  · obtain ⟨l, hl, hk, -⟩ := integerLiteral_of_fits hf
    rw [hl]
    exact hk
  · exact uncheckedCast_kind? _ _

end Casts

section Conversion

variable {v : Constant} {target : Primitive} {n : Int} {e : Expr}

/-- Nothing is implied by an enum value, which has no kind of its own. -/
def Constant.isImplicit (v : Constant) (target : Primitive) : Bool :=
  match v.kind? with
  | some source => source.convertsTo target
  | none => false

theorem Constant.fits_of_isImplicit (hn : v.toInt? = some n) (hs : v.isSupplementary = false)
    (hi : v.isImplicit target = true) (ht : target.range?.isSome = true) :
    target.fits n = true := by
  cases hk : v.kind? with
  | none => simp [isImplicit, hk] at hi
  | some source =>
    exact Primitive.fits_of_convertsTo (by simpa [isImplicit, hk] using hi) ht
      (Constant.fits_kind hn hs hk)

theorem Constant.convert?_numeric (hs : v.isSupplementary = false)
    (ht : target ≠ .object ∧ target ≠ .string ∧ target ≠ .bool) :
    v.convert? target = match v.toInt? with
      | some n =>
        convertInteger? n (v.literal?.getD (naturalInteger n)) target (v.isImplicit target)
      | none => v.toFloating?.bind fun x => convertReal? v x target := by
  obtain ⟨ho, hstring, hbool⟩ := ht
  cases target with
  | object => exact absurd rfl ho
  | string => exact absurd rfl hstring
  | bool => exact absurd rfl hbool
  | _ => simp only [convert?, hs]; rfl

theorem Constant.convert?_integer (hn : v.toInt? = some n) (hs : v.isSupplementary = false)
    (ht : target.range?.isSome = true) :
    v.convert? target = some (if target.fits n then integerLiteral target n
      else uncheckedCast target (v.literal?.getD (naturalInteger n))) := by
  have hne : target ≠ .object ∧ target ≠ .string ∧ target ≠ .bool := by
    refine ⟨?_, ?_, ?_⟩ <;> rintro rfl <;> cases ht
  rw [Constant.convert?_numeric hs hne, hn]
  exact convertInteger?_eq ht fun hi => Constant.fits_of_isImplicit hn hs hi ht

theorem Constant.literal?_kind? (hk : v.kind? = some target) (hs : v.isSupplementary = false)
    (h : v.literal? = some e) : e.kind? = some target := by
  cases v with
  | char c =>
    obtain rfl : .char = target := by simpa [Constant.kind?] using hk
    obtain ⟨l, hl, hc, -⟩ := integerLiteral_of_fits (Constant.fits_kind rfl hs rfl)
    obtain rfl : integerLiteral .char c.toNat = e := by simpa [Constant.literal?, hs] using h
    simp [hl, Expr.kind?, hc]
  | integer k n holds =>
    obtain rfl : .integer k = target := by simpa [Constant.kind?] using hk
    obtain ⟨l, hl, hc, -⟩ := integerLiteral_of_fits (Primitive.fits_integer.mpr holds)
    obtain rfl : integerLiteral (.integer k) n = e := by simpa [Constant.literal?, hs] using h
    simp [hl, Expr.kind?, hc]
  | null | type | enumeration => cases hk
  | bool | single | double | string =>
    obtain rfl := Option.some.inj hk
    obtain rfl := Option.some.inj h
    rfl

theorem Constant.isSupplementary_of_convert? (h : v.convert? target = some e) :
    v.isSupplementary = false := by
  by_contra hc
  simp [Constant.convert?, hc] at h

/-- What stays of a conversion once the kinds that keep the literal are set aside. -/
theorem Constant.convert?_cases (h : v.convert? target = some e) :
    v.literal? = some e ∨
    (target = .object ∧ ∃ name m, v = .enumeration name m ∧
      e = .cast (globalAlias ++ String.ofList (Text.dropLeadings globalAlias.toList name.toList))
        (naturalInteger m.toInt)) ∨
    (∃ n, v.toInt? = some n ∧ convertInteger? n (v.literal?.getD (naturalInteger n)) target
      (v.isImplicit target) = some e) ∨
    (∃ x, v.toFloating? = some x ∧ convertReal? v x target = some e) := by
  have hs := Constant.isSupplementary_of_convert? h
  by_cases hobject : target = .object
  · subst hobject
    cases v with
    | enumeration name m =>
      exact .inr (.inl ⟨rfl, name, m, rfl, by simpa [Constant.convert?, hs] using h.symm⟩)
    | _ => exact .inl (by simpa [Constant.convert?, hs] using h)
  by_cases hstring : target = .string
  · subst hstring
    cases v with
    | null | string => exact .inl (by simpa [Constant.convert?, hs] using h)
    | _ => simp [Constant.convert?, hs] at h
  by_cases hbool : target = .bool
  · subst hbool
    cases v with
    | bool b => exact .inl (by simpa [Constant.convert?, hs] using h)
    | _ => simp [Constant.convert?, hs] at h
  rw [Constant.convert?_numeric hs ⟨hobject, hstring, hbool⟩] at h
  cases hn : v.toInt? with
  | some n =>
    rw [hn] at h
    exact .inr (.inr (.inl ⟨n, rfl, h⟩))
  | none =>
    rw [hn] at h
    obtain ⟨x, hx, h⟩ := Option.bind_eq_some_iff.mp h
    exact .inr (.inr (.inr ⟨x, hx, h⟩))

theorem Constant.convert?_numeric_kind? (ht : target ≠ .object ∧ target ≠ .string ∧ target ≠ .bool)
    (h : v.convert? target = some e) : e.kind? = some target := by
  have hs := Constant.isSupplementary_of_convert? h
  rw [Constant.convert?_numeric hs ht] at h
  cases hn : v.toInt? with
  | some n =>
    rw [hn] at h
    exact convertInteger?_kind? (fun hi hr => Constant.fits_of_isImplicit hn hs hi hr) h
  | none =>
    rw [hn] at h
    obtain ⟨x, -, hx⟩ := Option.bind_eq_some_iff.mp h
    exact convertReal?_kind? hx

theorem Constant.convert?_kind? (ht : target ≠ .object) (h : v.convert? target = some e) :
    e.kind? = some target := by
  have hs := Constant.isSupplementary_of_convert? h
  by_cases hstring : target = .string
  · subst hstring
    cases v with
    | null =>
      obtain rfl : Expr.null = e := by simpa [Constant.convert?, Constant.literal?, hs] using h
      rfl
    | string s => exact Constant.literal?_kind? rfl hs (by simpa [Constant.convert?, hs] using h)
    | _ => simp [Constant.convert?, hs] at h
  by_cases hbool : target = .bool
  · subst hbool
    cases v with
    | bool b => exact Constant.literal?_kind? rfl hs (by simpa [Constant.convert?, hs] using h)
    | _ => simp [Constant.convert?, hs] at h
  exact Constant.convert?_numeric_kind? ⟨ht, hstring, hbool⟩ h

/-- Whatever a constant is converted to, other than an object, its expression has exactly that kind.
An integer always converts to a kind of whole numbers. The expression stands for the number of the
kind's range that is equal to it modulo `2 ^ width`, and it is a bare literal exactly when that is
the integer itself. -/
theorem Constant.convert?_exact (v : Constant) (target : Primitive) :
    (∀ e, target ≠ .object → v.convert? target = some e → e.kind? = some target) ∧
    (∀ n, v.toInt? = some n → v.isSupplementary = false →
      (target = .char ∨ target.isIntegral = true) →
      ∃ e m, v.convert? target = some e ∧
        e.value? = some m ∧ target.fits m = true ∧ m ≡ n [ZMOD 2 ^ target.width] ∧
        (e.isLiteral = true ↔ target.fits n = true) ∧
        (∀ l, e = .literal l → l.kind? = some target ∧ l.number? = some n)) := by
  refine ⟨fun e ht h => Constant.convert?_kind? ht h, fun n hn hs hk => ?_⟩
  have ht := Primitive.range?_isSome_iff.mpr hk
  have hc := Constant.convert?_integer hn hs ht
  cases hf : target.fits n with
  | true =>
    obtain ⟨l, hl, hkind, hnum⟩ := integerLiteral_of_fits hf
    refine ⟨.literal l, n, by simpa [hf, hl] using hc, hnum, hf, rfl,
      by simp [Expr.isLiteral], ?_⟩
    rintro l' he
    obtain rfl := Expr.literal.inj he
    exact ⟨hkind, hnum⟩
  | false =>
    obtain ⟨l, hl, hnum⟩ := Constant.operand_number hn hs
    obtain ⟨m, hm, hmf, hmod⟩ := Primitive.wrap?_eq_some ht n
    refine ⟨uncheckedCast target (.literal l), m, by simpa [hf, hl] using hc, ?_, hmf, hmod, ?_, ?_⟩
    · rw [uncheckedCast_value? hnum hf, hm]
    · simp [Expr.isLiteral, uncheckedCast]
    · intro l' he
      simp [uncheckedCast] at he

/-- The largest unsigned byte as a signed one. -/
theorem Constant.convert?_exact_sbyte :
    (Primitive.integer .sbyte ≠ .object ∧
      (Constant.enumeration "Demo.Mode" 255).toInt? = some 255) ∧
    (∃ e m, (Constant.enumeration "Demo.Mode" 255).convert? (.integer .sbyte) = some e ∧
      e.value? = some m ∧ m = -1 ∧ e.isLiteral = false ∧ e.kind? = some (.integer .sbyte)) := by
  have hx := Constant.convert?_exact (.enumeration "Demo.Mode" 255) (.integer .sbyte)
  refine ⟨⟨by decide, by decide⟩, ?_⟩
  obtain ⟨e, m, he, hv, hf, hm, hl, -⟩ := hx.2 255 (by decide) rfl (.inr rfl)
  refine ⟨e, m, he, hv, ?_, ?_, hx.1 e (by decide) he⟩
  · obtain ⟨lo, hi, hr, hlo, hhi⟩ := Primitive.fits_iff.mp hf
    obtain ⟨rfl, rfl⟩ : -128 = lo ∧ 127 = hi := by
      simpa [Primitive.range?, IntegerKind.least, IntegerKind.greatest] using hr
    have hmod : m % 256 = 255 % 256 := hm
    omega
  · exact Bool.eq_false_iff.mpr fun h => absurd (hl.mp h) (by decide)

end Conversion

end Bindable
