import Bindable.Proofs.Conversion.ExactKind
import Bindable.Proofs.Text.Cut
import Mathlib.Data.Int.Bitwise
import Mathlib.Data.List.Basic

/-! A constant as the default of an enum. It converts if it is the value of a member, is one of the
enum's own constants, or is a combination of flags, bit by bit; otherwise not. It becomes the first
member with its value, or else a cast of an expression of the underlying kind. -/

namespace Bindable

section Bits

variable {s : EnumSymbol} {n : Int}

theorem getLsbD_ofInt {w i : Nat} (n : Int) (hi : i < w) :
    (BitVec.ofInt w n).getLsbD i = n.testBit i := by
  cases n with
  | ofNat a =>
    rw [Int.ofNat_eq_natCast, BitVec.ofInt_natCast, BitVec.getLsbD_ofNat]
    simp [hi, Int.testBit]
  | negSucc a =>
    rw [BitVec.ofInt_negSucc_eq_not_ofNat, BitVec.getLsbD_not, BitVec.getLsbD_ofNat]
    simp [hi, Int.testBit]

theorem getLsbD_foldl_or {α : Type} {w : Nat} (f : α → BitVec w) (l : List α) (bits : BitVec w)
    (i : Nat) : (l.foldl (fun bits a => bits ||| f a) bits).getLsbD i =
      (bits.getLsbD i || l.any fun a => (f a).getLsbD i) := by
  induction l generalizing bits with
  | nil => simp
  | cons a l ih => rw [List.foldl_cons, ih, BitVec.getLsbD_or, List.any_cons, Bool.or_assoc]

theorem getLsbD_declaredBits (s : EnumSymbol) {i : Nat} (hi : i < 128) :
    s.declaredBits.getLsbD i = s.declaration.enumMembers.any fun m => m.value.toInt.testBit i := by
  rw [EnumSymbol.declaredBits, getLsbD_foldl_or]
  simp [getLsbD_ofInt _ hi]

/-- Every bit of the number is a bit of some member, negative members being extended. -/
def EnumSymbol.Covers (s : EnumSymbol) (n : Int) : Prop :=
  ∀ i, n.testBit i = true → ∃ m ∈ s.declaration.enumMembers, m.value.toInt.testBit i = true

theorem EnumSymbol.covers_iff (hlo : 0 ≤ n) (hhi : n < 2 ^ 64) :
    s.Covers n ↔ BitVec.ofInt 128 n &&& ~~~s.declaredBits = 0 := by
  obtain ⟨a, rfl⟩ := Int.eq_ofNat_of_zero_le hlo
  constructor
  · intro h
    refine BitVec.eq_of_getLsbD_eq fun i hi => ?_
    rw [BitVec.getLsbD_and, BitVec.getLsbD_not, getLsbD_ofInt _ hi, getLsbD_declaredBits s hi]
    by_cases hbit : (a : Int).testBit i = true
    · have hany : (s.declaration.enumMembers.any fun m => m.value.toInt.testBit i) = true :=
        List.any_eq_true.mpr (h i hbit)
      simp [hany]
    · simp [hbit]
  · intro h i hbit
    have hi : i < 128 := by
      by_contra hge
      have hpow : 2 ^ 64 ≤ 2 ^ i := Nat.pow_le_pow_right Nat.two_pos (by omega)
      have hfree := Nat.testBit_lt_two_pow (Nat.lt_of_lt_of_le (Int.ofNat_lt.mp hhi) hpow)
      exact Bool.false_ne_true (hfree.symm.trans hbit)
    have hzero := congrArg (fun bits => bits.getLsbD i) h
    simp only [BitVec.getLsbD_and, BitVec.getLsbD_not, getLsbD_ofInt _ hi,
      getLsbD_declaredBits s hi, hbit, hi] at hzero
    exact List.any_eq_true.mp (by simpa using hzero)

theorem EnumSymbol.isCombinationOfMembers_iff (hhi : n < 2 ^ 64) :
    s.isCombinationOfMembers n = true ↔ 0 ≤ n ∧ s.Covers n := by
  rw [isCombinationOfMembers, Bool.and_eq_true, decide_eq_true_iff, beq_iff_eq]
  exact and_congr_right fun hlo => (covers_iff hlo hhi).symm

end Bits

section Conversion

variable {v : Constant} {s : EnumSymbol} {display : String} {k : IntegerKind} {n : Int} {e : Expr}
  {target : Primitive} {l : Literal}

theorem Constant.toInt?_lt (hn : v.toInt? = some n) : n < 2 ^ 64 := by
  cases v with
  | char c =>
    obtain rfl : (c.toNat : Int) = n := by simpa [Constant.toInt?] using hn
    have hc : c.toNat < 1114112 := by
      rcases c.valid with h | h
      · exact Nat.lt_trans h (by decide)
      · exact h.2
    omega
  | integer k m holds =>
    obtain rfl : m = n := by simpa [Constant.toInt?] using hn
    have hk : k.greatest < 2 ^ 64 := by cases k <;> decide
    exact Int.lt_of_le_of_lt holds.2 hk
  | enumeration name m =>
    obtain rfl : m.toInt = n := by simpa [Constant.toInt?] using hn
    have hm := m.toInt_lt
    omega
  | _ => simp [Constant.toInt?] at hn

/-- The constant names the enum as its type, after the global alias or not. -/
def Constant.IsOf (v : Constant) (s : EnumSymbol) : Prop :=
  ∃ name value, v = .enumeration name value ∧
    ¬globalAlias.toList <+: s.declaration.metadataName.toList ∧
    ∃ k, name.toList =
      (List.replicate k globalAlias.toList).flatten ++ s.declaration.metadataName.toList

/-- The constant as a number of the underlying kind. -/
def Constant.underlying? (v : Constant) (n : Int) (target : Primitive) : Option Expr :=
  match v with
  | .enumeration .. => convertInteger? n (naturalInteger n) target false
  | _ => v.convert? target

def Constant.isTyped (v : Constant) (s : EnumSymbol) : Bool :=
  match v with
  | .enumeration name _ =>
    String.ofList (Text.dropLeadings globalAlias.toList name.toList) = s.declaration.metadataName
  | _ => false

theorem Constant.isTyped_iff : v.isTyped s = true ↔ v.IsOf s := by
  cases v with
  | enumeration name value =>
    rw [isTyped, decide_eq_true_iff, ← String.toList_inj, String.toList_ofList,
      Text.dropLeadings_eq_iff (by decide)]
    constructor
    · exact fun h => ⟨name, value, rfl, h⟩
    · rintro ⟨_, _, he, h⟩
      obtain ⟨rfl, rfl⟩ := Constant.enumeration.inj he
      exact h
  | _ => simp [isTyped, IsOf]

theorem Constant.underlying?_eq (hn : v.toInt? = some n) (hs : v.isSupplementary = false)
    (ht : target.range?.isSome = true) :
    v.underlying? n target = some (if target.fits n then integerLiteral target n
      else uncheckedCast target (v.literal?.getD (naturalInteger n))) := by
  cases v with
  | enumeration name value =>
    exact convertInteger?_eq ht fun h => absurd h Bool.false_ne_true
  | _ => exact Constant.convert?_integer hn hs ht

/-- What has no member of its value is cast. -/
theorem Constant.convertToEnum?_eq (hn : v.toInt? = some n) :
    v.convertToEnum? s display = match s.memberWithValue? n with
      | some m => some (.member (.ident display) m.name)
      | none =>
        if v.isTyped s || s.isFlags && s.isCombinationOfMembers n then
          (v.underlying? n s.underlying).map (.cast display)
        else none := by
  unfold convertToEnum?
  rw [hn]
  show (match s.memberWithValue? n with
    | some m => _
    | none => _) = _
  cases s.memberWithValue? n with
  | some m => rfl
  | none =>
    show (if v.isTyped s || _ then _ else none) = _
    split
    · cases v <;> exact (Option.map_eq_bind ..).symm
    · rfl

theorem literalOrCast_value? (ht : target.range?.isSome = true) (hl : l.number? = some n) :
    ∃ m, (if target.fits n then integerLiteral target n
        else uncheckedCast target (.literal l)).value? = some m ∧
      target.fits m = true ∧ m ≡ n [ZMOD 2 ^ target.width] := by
  cases hf : target.fits n with
  | true =>
    obtain ⟨l', hl', -, hnum⟩ := integerLiteral_of_fits hf
    refine ⟨n, ?_, hf, rfl⟩
    rw [if_pos rfl, hl']
    exact hnum
  | false =>
    obtain ⟨m, hm, hmf, hmod⟩ := Primitive.wrap?_eq_some ht n
    refine ⟨m, ?_, hmf, hmod⟩
    rw [if_neg Bool.false_ne_true, uncheckedCast_value? hl hf, hm]

theorem Constant.underlying?_kind_value (hn : v.toInt? = some n) (hs : v.isSupplementary = false)
    (ht : target.range?.isSome = true) :
    ∃ e m, v.underlying? n target = some e ∧ e.kind? = some target ∧ e.value? = some m ∧
      target.fits m = true ∧ m ≡ n [ZMOD 2 ^ target.width] := by
  obtain ⟨l, hl, hnum⟩ := Constant.operand_number hn hs
  obtain ⟨m, hm, hmf, hmod⟩ := literalOrCast_value? ht hnum
  have he := Constant.underlying?_eq hn hs ht
  rw [hl] at he
  exact ⟨_, m, he, literalOrCast_kind? target n (.literal l), hm, hmf, hmod⟩

theorem EnumSymbol.memberWithValue?_eq_none :
    s.memberWithValue? n = none ↔ ∀ m ∈ s.declaration.enumMembers, m.value.toInt ≠ n := by
  simp [memberWithValue?]

theorem Constant.isTyped_or_flags_iff (hn : v.toInt? = some n) :
    (v.isTyped s || s.isFlags && s.isCombinationOfMembers n) = true ↔
      v.IsOf s ∨ s.isFlags = true ∧ 0 ≤ n ∧ s.Covers n := by
  rw [Bool.or_eq_true, Bool.and_eq_true, isTyped_iff,
    EnumSymbol.isCombinationOfMembers_iff (toInt?_lt hn)]

theorem Constant.isSome_convertToEnum?_iff (hn : v.toInt? = some n)
    (hs : v.isSupplementary = false) (ht : s.underlying.range?.isSome = true) :
    (v.convertToEnum? s display).isSome = true ↔
      (∃ m ∈ s.declaration.enumMembers, m.value.toInt = n) ∨ v.IsOf s ∨
        s.isFlags = true ∧ 0 ≤ n ∧ s.Covers n := by
  obtain ⟨e, -, he, -⟩ := Constant.underlying?_kind_value hn hs ht
  rw [convertToEnum?_eq hn, he, ← isTyped_or_flags_iff hn]
  cases hm : s.memberWithValue? n with
  | some m =>
    have hvalue : m.value.toInt = n := by simpa using List.find?_some hm
    exact iff_of_true rfl (.inl ⟨m, List.mem_of_find?_eq_some hm, hvalue⟩)
  | none =>
    have hnone : ¬∃ m ∈ s.declaration.enumMembers, m.value.toInt = n := by
      simpa using EnumSymbol.memberWithValue?_eq_none.mp hm
    rw [or_iff_right hnone]
    by_cases hcond : (v.isTyped s || s.isFlags && s.isCombinationOfMembers n) = true <;>
      simp [hcond]

theorem Constant.convertToEnum?_of_member {before after : List EnumMember} {m : EnumMember}
    (hn : v.toInt? = some n) (hmembers : s.declaration.enumMembers = before ++ m :: after)
    (hvalue : m.value.toInt = n) (hbefore : ∀ x ∈ before, x.value.toInt ≠ n) :
    v.convertToEnum? s display = some (.member (.ident display) m.name) := by
  have hfirst : s.memberWithValue? n = some m :=
    List.find?_eq_some_iff_append.mpr
      ⟨by simpa using hvalue, before, after, hmembers, by simpa using hbefore⟩
  rw [convertToEnum?_eq hn, hfirst]

theorem Constant.exists_cast_of_convertToEnum? (hn : v.toInt? = some n)
    (hs : v.isSupplementary = false) (ht : s.underlying.range?.isSome = true)
    (hnone : ∀ m ∈ s.declaration.enumMembers, m.value.toInt ≠ n)
    (h : v.convertToEnum? s display = some e) :
    ∃ operand w, e = .cast display operand ∧ operand.kind? = some s.underlying ∧
      operand.value? = some w ∧ s.underlying.fits w = true ∧
      w ≡ n [ZMOD 2 ^ s.underlying.width] := by
  obtain ⟨operand, w, hoperand, hrest⟩ := Constant.underlying?_kind_value hn hs ht
  rw [convertToEnum?_eq hn, EnumSymbol.memberWithValue?_eq_none.mpr hnone, hoperand] at h
  dsimp only at h
  split at h
  · exact ⟨operand, w, (Option.some.inj h).symm, hrest⟩
  · contradiction

/-- A constant converts to an enum just when it is a whole number that some member has, or one of
the enum's constants, or a combination of flags. It is the first member with its value; a constant
without a member is cast from an expression of exactly the underlying kind, which stands for the
number of the kind's range that is equal to it modulo `2 ^ width`. -/
theorem Constant.convertToEnum?_exact (hk : s.underlying = .integer k)
    (hs : v.isSupplementary = false) (display : String) :
    ((v.convertToEnum? s display).isSome = true ↔ ∃ n, v.toInt? = some n ∧
      ((∃ m ∈ s.declaration.enumMembers, m.value.toInt = n) ∨ v.IsOf s ∨
        s.isFlags = true ∧ 0 ≤ n ∧ s.Covers n)) ∧
    ∀ n e, v.toInt? = some n → v.convertToEnum? s display = some e →
      (∀ before m after, s.declaration.enumMembers = before ++ m :: after → m.value.toInt = n →
        (∀ x ∈ before, x.value.toInt ≠ n) → e = .member (.ident display) m.name) ∧
      ((∀ m ∈ s.declaration.enumMembers, m.value.toInt ≠ n) →
        ∃ operand w, e = .cast display operand ∧ operand.kind? = some (.integer k) ∧
          operand.value? = some w ∧ k.Holds w ∧ w ≡ n [ZMOD 2 ^ k.width]) := by
  have ht : s.underlying.range?.isSome = true := by rw [hk]; rfl
  refine ⟨?_, fun n e hn he => ⟨?_, fun hnone => ?_⟩⟩
  · cases hn : v.toInt? with
    | none => simp [convertToEnum?, hn]
    | some n =>
      rw [isSome_convertToEnum?_iff hn hs ht]
      simp
  · intro before m after hmembers hvalue hbefore
    rw [convertToEnum?_of_member hn hmembers hvalue hbefore] at he
    exact (Option.some.inj he).symm
  · obtain ⟨operand, w, hcast, hkind, hvalue, hfits, hmod⟩ :=
      exists_cast_of_convertToEnum? hn hs ht hnone he
    rw [hk] at hkind hfits hmod
    exact ⟨operand, w, hcast, hkind, hvalue, Primitive.fits_integer.mp hfits, hmod⟩

/-- An enum of flags whose last member has all bits but the lowest eight. -/
def edges : EnumSymbol where
  declaration := { (default : TypeDeclaration) with
    name := "Edges", kind := .enumType, enumMembers := [⟨"Left", 1⟩, ⟨"Right", 2⟩, ⟨"Rest", -256⟩] }
  underlying := .integer .byte
  isFlags := true

/-- The bits 0, 1 and 8 do not fit a byte, from which 8 is lost. -/
theorem Constant.convertToEnum?_exact_edges :
    let v : Constant := .integer .int 259 (by decide)
    edges.underlying = .integer .byte ∧ v.isSupplementary = false ∧
      ∃ operand, v.convertToEnum? edges "global::Edges" = some (.cast "global::Edges" operand) ∧
        operand.kind? = some (.integer .byte) ∧ operand.value? = some 3 := by
  intro v
  have hx := v.convertToEnum?_exact (s := edges) (k := .byte) rfl rfl "global::Edges"
  have hcovers : edges.Covers 259 :=
    (EnumSymbol.covers_iff (by decide) (by decide)).mpr (by decide)
  have hsome := hx.1.mpr ⟨259, rfl, .inr (.inr ⟨rfl, by decide, hcovers⟩)⟩
  obtain ⟨e, he⟩ := Option.isSome_iff_exists.mp hsome
  obtain ⟨operand, w, rfl, hkind, hvalue, hholds, hmod⟩ := (hx.2 259 e rfl he).2 (by decide)
  refine ⟨rfl, rfl, operand, he, hkind, ?_⟩
  have hw : 0 ≤ w ∧ w ≤ 255 := hholds
  have hmod : w % 256 = 259 % 256 := hmod
  rw [hvalue]
  congr 1
  omega

end Conversion

end Bindable
