import Bindable.Numeric.Reading
import Bindable.Proofs.Conversion.ExactKind
import Bindable.Proofs.Emission.Wiring
import Bindable.Proofs.Json.Lexemes

/-! The texts of real literals. Whole numbers and finite floating-point numbers have a plain decimal
text, an infinite one has not. It converts to nothing but an object, and is then written as it is. -/

namespace Bindable

def IsDigits (cs : List Char) : Prop := cs ≠ [] ∧ ∀ c ∈ cs, c.isDigit

/-- Digits, perhaps after a minus sign, and perhaps a point and digits after them. -/
def IsDecimalText (text : String) : Prop :=
  ∃ sign whole fraction, text.toList = sign ++ whole ++ fraction ∧ (sign = [] ∨ sign = ['-']) ∧
    IsDigits whole ∧ (fraction = [] ∨ ∃ places, fraction = '.' :: places ∧ IsDigits places)

/-- Every real literal in the expression has a kind of real numbers and a plain decimal text. -/
def Expr.HasDecimalReals (e : Expr) : Prop :=
  ∀ kind text, .literal (.real kind text) ∈ e.parts → kind.isReal ∧ IsDecimalText text

def Constant.isInfinite (v : Constant) : Bool := v.toFloating?.any fun x => !x.isFinite

section Texts

variable {cs ds : List Char}

theorem IsDigits.append_left (hcs : IsDigits cs) (hds : ∀ c ∈ ds, c.isDigit) :
    IsDigits (cs ++ ds) := by
  refine ⟨fun h => hcs.1 (List.append_eq_nil_iff.mp h).1, fun c hc => ?_⟩
  obtain hc | hc := List.mem_append.mp hc
  · exact hcs.2 c hc
  · exact hds c hc

theorem IsDigits.append_right (hcs : ∀ c ∈ cs, c.isDigit) (hds : IsDigits ds) :
    IsDigits (cs ++ ds) := by
  refine ⟨fun h => hds.1 (List.append_eq_nil_iff.mp h).2, fun c hc => ?_⟩
  obtain hc | hc := List.mem_append.mp hc
  · exact hcs c hc
  · exact hds.2 c hc

theorem isDigits_toDigits (n : Nat) : IsDigits (Nat.toDigits 10 n) :=
  ⟨Nat.toDigits_ne_nil, fun _ => Json.isDigit_of_mem_toDigits⟩

theorem isDigit_of_mem_zeros {n : Nat} : ∀ c ∈ zeros n, c.isDigit := by
  intro c hc
  rw [List.eq_of_mem_replicate hc]
  rfl

/-- Where the point stands inside the digits, digits are left on both of its sides. -/
theorem Decimal.exists_chars_eq (d : Decimal) : ∃ whole fraction, d.chars = whole ++ fraction ∧
    IsDigits whole ∧ (fraction = [] ∨ ∃ places, fraction = '.' :: places ∧ IsDigits places) := by
  have hdigits := isDigits_toDigits d.digits
  rw [chars]
  generalize Nat.toDigits 10 d.digits = digits at hdigits ⊢
  generalize (-d.exponent).toNat = places
  split
  next => exact ⟨_, [], (List.append_nil _).symm, hdigits.append_left isDigit_of_mem_zeros, .inl rfl⟩
  next hplaces =>
    split
    next hlt =>
      have hbefore : IsDigits (digits.take (digits.length - places)) := by
        refine ⟨fun h => ?_, fun c hc => hdigits.2 c (List.mem_of_mem_take hc)⟩
        have hlength := congrArg List.length h
        rw [List.length_take, List.length_nil] at hlength
        omega
      have hafter : IsDigits (digits.drop (digits.length - places)) := by
        refine ⟨fun h => ?_, fun c hc => hdigits.2 c (List.mem_of_mem_drop hc)⟩
        have hlength := List.drop_eq_nil_iff.mp h
        omega
      exact ⟨_, _, rfl, hbefore, .inr ⟨_, rfl, hafter⟩⟩
    next =>
      have hzero : IsDigits ['0'] := ⟨by simp, by simp⟩
      exact ⟨['0'], _, rfl, hzero, .inr ⟨_, rfl, hdigits.append_right isDigit_of_mem_zeros⟩⟩

theorem isDecimalText_toString (n : Int) : IsDecimalText (toString n) := by
  refine ⟨if n < 0 then ['-'] else [], _, [], ?_, ?_, isDigits_toDigits n.natAbs, .inl rfl⟩
  · rw [Json.toList_toString_int, List.append_nil]
  · split <;> simp

theorem isDecimalText_finite (f : FloatFormat) (negative : Bool) (units : Nat) :
    IsDecimalText ((Floating.finite negative units).text f) := by
  obtain ⟨whole, fraction, hchars, hwhole, hfraction⟩ := (f.shortest units).exists_chars_eq
  refine ⟨(Floating.sign negative).toList, whole, fraction, ?_, ?_, hwhole, hfraction⟩
  · rw [Floating.text, String.toList_append, String.toList_ofList, hchars, List.append_assoc]
  · cases negative <;> simp [Floating.sign]

theorem not_isDecimalText_infinite (f : FloatFormat) (negative : Bool) :
    ¬ IsDecimalText ((Floating.infinite negative).text f) := by
  rintro ⟨sign, whole, fraction, htext, hsign, hwhole, hfraction⟩
  have hletter : 'i' ∈ sign ++ whole ++ fraction := by
    rw [← htext]
    simp [Floating.text]
  have hdigit : ¬ ('i' : Char).isDigit := by decide
  rw [List.mem_append, List.mem_append] at hletter
  rcases hletter with (hmem | hmem) | hmem
  · rcases hsign with rfl | rfl <;> simp at hmem
  · exact hdigit (hwhole.2 _ hmem)
  · rcases hfraction with rfl | ⟨places, rfl, hplaces⟩
    · simp at hmem
    · rw [List.mem_cons] at hmem
      rcases hmem with hpoint | hmem
      · simp at hpoint
      · exact hdigit (hplaces.2 _ hmem)

theorem isDecimalText_text_iff (x : Floating) (f : FloatFormat) :
    IsDecimalText (x.text f) ↔ x.isFinite := by
  cases x with
  | finite negative units => exact iff_of_true (isDecimalText_finite f negative units) rfl
  | infinite negative =>
    exact iff_of_false (not_isDecimalText_infinite f negative) Bool.false_ne_true

end Texts

section Expressions

variable {v : Constant} {target : Primitive} {x : Floating} {e source : Expr} {n : Int}

theorem hasDecimalReals_real_iff {kind : Primitive} {text : String} :
    (Expr.literal (.real kind text)).HasDecimalReals ↔ kind.isReal ∧ IsDecimalText text := by
  constructor
  · intro h
    exact h kind text (List.mem_singleton.mpr rfl)
  · rintro h kind' text' hmem
    obtain ⟨rfl, rfl⟩ : kind' = kind ∧ text' = text := by simpa [Expr.parts] using hmem
    exact h

theorem hasDecimalReals_literal {l : Literal} (h : ∀ kind text, l ≠ .real kind text) :
    (Expr.literal l).HasDecimalReals := by
  intro kind text hmem
  have hl := Expr.literal.inj (List.mem_singleton.mp hmem)
  exact absurd hl.symm (h kind text)

theorem hasDecimalReals_integerLiteral (target : Primitive) (n : Int) :
    (integerLiteral target n).HasDecimalReals := by
  rw [integerLiteral]
  split <;> exact hasDecimalReals_literal fun _ _ => Literal.noConfusion

theorem hasDecimalReals_naturalInteger (n : Int) : (naturalInteger n).HasDecimalReals := by
  rw [naturalInteger]
  split <;> exact hasDecimalReals_integerLiteral _ n

theorem hasDecimalReals_cast {type : String} (h : source.HasDecimalReals) :
    (Expr.cast type source).HasDecimalReals := by
  intro kind text hmem
  rw [Expr.parts, List.mem_cons] at hmem
  obtain hmem | hmem := hmem
  · cases hmem
  · exact h kind text hmem

theorem hasDecimalReals_uncheckedCast (h : source.HasDecimalReals) :
    (uncheckedCast target source).HasDecimalReals := by
  intro kind text hmem
  rw [uncheckedCast, Expr.parts, List.mem_cons] at hmem
  obtain hmem | hmem := hmem
  · cases hmem
  · exact hasDecimalReals_cast h kind text hmem

/-- Of the literals of constants only those of infinite numbers are no proper numbers. -/
theorem hasDecimalReals_literal?_iff (h : v.literal? = some e) :
    e.HasDecimalReals ↔ v.isInfinite = false := by
  have hreal : ∀ (kind : Primitive) (f : FloatFormat) (x : Floating), kind.isReal →
      ((Expr.literal (.real kind (x.text f))).HasDecimalReals ↔ (!x.isFinite) = false) := by
    intro kind f x hkind
    rw [hasDecimalReals_real_iff, isDecimalText_text_iff, and_iff_right hkind, Bool.not_eq_false']
  cases v with
  | single x =>
    obtain rfl := Option.some_inj.mp h
    exact hreal .float binary32 x rfl
  | double x =>
    obtain rfl := Option.some_inj.mp h
    exact hreal .double binary64 x rfl
  | char c =>
    rw [Constant.literal?] at h
    split at h
    next => cases h
    next =>
      obtain rfl := Option.some_inj.mp h
      exact iff_of_true (hasDecimalReals_integerLiteral _ _) rfl
  | integer kind n holds =>
    obtain rfl := Option.some_inj.mp h
    exact iff_of_true (hasDecimalReals_integerLiteral _ n) rfl
  | null | bool | string =>
    obtain rfl := Option.some_inj.mp h
    exact iff_of_true (hasDecimalReals_literal fun _ _ => Literal.noConfusion) rfl
  | type t =>
    obtain rfl := Option.some_inj.mp h
    refine iff_of_true (fun kind text hmem => ?_) rfl
    simp [Expr.parts] at hmem
  | enumeration => cases h

theorem hasDecimalReals_convertInteger? {implicit : Bool} (hsource : source.HasDecimalReals)
    (h : convertInteger? n source target implicit = some e) : e.HasDecimalReals := by
  obtain ⟨hreal, rfl⟩ | ⟨-, rfl⟩ | ⟨-, rfl⟩ := convertInteger?_cases h
  · exact hasDecimalReals_real_iff.mpr ⟨hreal, isDecimalText_toString n⟩
  · exact hasDecimalReals_integerLiteral target n
  · exact hasDecimalReals_uncheckedCast hsource

theorem isInfinite_eq (hv : v.toFloating? = some x) : v.isInfinite = !x.isFinite := by
  rw [Constant.isInfinite, hv]
  rfl

theorem hasDecimalReals_convertReal? (hv : v.toFloating? = some x)
    (h : convertReal? v x target = some e) : e.HasDecimalReals := by
  obtain ⟨hfinite, source, hliteral, ⟨hreal, f, rfl⟩ | ⟨n, -, -, rfl⟩ | rfl⟩ := convertReal?_cases h
  · exact hasDecimalReals_real_iff.mpr ⟨hreal, (isDecimalText_text_iff x f).mpr hfinite⟩
  · exact hasDecimalReals_integerLiteral target n
  · -- the source is the operand of the cast, so that its own literal counts as well
    have hinfinite : v.isInfinite = false := by rw [isInfinite_eq hv, hfinite]; rfl
    exact hasDecimalReals_uncheckedCast ((hasDecimalReals_literal?_iff hliteral).mpr hinfinite)

end Expressions

namespace Constant

variable {v : Constant} {target : Primitive} {e : Expr} {n : Int}

theorem isInfinite_of_toInt? (hn : v.toInt? = some n) : v.isInfinite = false := by
  cases v with
  | single x => cases hn
  | double x => cases hn
  | _ => rfl

theorem operand_hasDecimalReals (hn : v.toInt? = some n) :
    (v.literal?.getD (naturalInteger n)).HasDecimalReals := by
  cases hliteral : v.literal? with
  | none => exact hasDecimalReals_naturalInteger n
  | some source => exact (hasDecimalReals_literal?_iff hliteral).mpr (isInfinite_of_toInt? hn)

theorem exists_of_isInfinite (hv : v.isInfinite) :
    ∃ negative, v = .single (.infinite negative) ∨ v = .double (.infinite negative) := by
  cases v with
  | single x =>
    cases x with
    | finite => cases hv
    | infinite negative => exact ⟨negative, .inl rfl⟩
  | double x =>
    cases x with
    | finite => cases hv
    | infinite negative => exact ⟨negative, .inr rfl⟩
  | _ => cases hv

theorem convert?_of_isInfinite (hv : v.isInfinite) (target : Primitive) :
    v.convert? target = if target = .object then v.literal? else none := by
  obtain ⟨negative, rfl | rfl⟩ := exists_of_isInfinite hv <;> cases target <;> rfl

theorem not_hasDecimalReals_of_isInfinite (hv : v.isInfinite) :
    ∃ e, v.convert? .object = some e ∧ ¬ e.HasDecimalReals := by
  have hliteral : ∃ e, v.literal? = some e := by
    obtain ⟨negative, rfl | rfl⟩ := exists_of_isInfinite hv <;> exact ⟨_, rfl⟩
  obtain ⟨e, he⟩ := hliteral
  refine ⟨e, ?_, ?_⟩
  · rw [convert?_of_isInfinite hv, if_pos rfl, he]
  · rw [hasDecimalReals_literal?_iff he, hv]
    exact Bool.noConfusion

theorem hasDecimalReals_convert? (hv : v.isInfinite = false) (h : v.convert? target = some e) :
    e.HasDecimalReals := by
  obtain hliteral | ⟨-, name, m, -, rfl⟩ | ⟨n, hn, h⟩ | ⟨x, hx, h⟩ := convert?_cases h
  · exact (hasDecimalReals_literal?_iff hliteral).mpr hv
  · exact hasDecimalReals_cast (hasDecimalReals_naturalInteger _)
  · exact hasDecimalReals_convertInteger? (operand_hasDecimalReals hn) h
  · exact hasDecimalReals_convertReal? hx h

/-- Whatever a constant is converted to, its real literals have plain decimal texts, unless an
infinite number is converted to an object. To anything else it is not converted at all. -/
theorem convert?_realLiterals (v : Constant) (target : Primitive) :
    ((∀ e, v.convert? target = some e → e.HasDecimalReals) ↔
      ¬ (target = .object ∧ v.isInfinite)) ∧
    (v.isInfinite → v.convert? target = if target = .object then v.literal? else none) := by
  refine ⟨⟨?_, fun h e he => ?_⟩, fun hv => convert?_of_isInfinite hv target⟩
  · rintro hall ⟨rfl, hv⟩
    obtain ⟨e, he, hnot⟩ := not_hasDecimalReals_of_isInfinite hv
    exact hnot (hall e he)
  · cases hv : v.isInfinite with
    | false => exact hasDecimalReals_convert? hv he
    | true =>
      rw [convert?_of_isInfinite hv, if_neg fun ht => h ⟨ht, hv⟩] at he
      cases he

/-- The number 1e39 of a document is too large for the small format. -/
theorem convert?_realLiterals_overflow :
    let numeral : Numeral := { negative := false, whole := 1, fraction := [], exponent := some 39 }
    ∃ x, numeral.toSingle? = some x ∧ (single x).isInfinite ∧
      (single x).convert? .object = some (.literal (.real .float "inf")) ∧
      ¬ (Expr.literal (.real .float "inf")).HasDecimalReals ∧ (single x).convert? .double = none := by
  intro numeral
  have hread : numeral.toSingle? = some (.infinite false) := by decide +kernel
  have hobject := (convert?_realLiterals (single (.infinite false)) .object).2 rfl
  have hdouble := (convert?_realLiterals (single (.infinite false)) .double).2 rfl
  refine ⟨_, hread, rfl, hobject, fun h => ?_, hdouble⟩
  refine (convert?_realLiterals (single (.infinite false)) .object).1.mp (fun e he => ?_) ⟨rfl, rfl⟩
  obtain rfl := Option.some_inj.mp (hobject.symm.trans he)
  exact h

end Constant

end Bindable
