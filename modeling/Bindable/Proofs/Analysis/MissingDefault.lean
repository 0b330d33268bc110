import Bindable.Analysis.Analyzer
import Bindable.Proofs.Conversion.ExactKind
import Bindable.Proofs.Emission.Wiring
import Bindable.Proofs.Marker.Reading
import Bindable.Proofs.Marker.Settings

/-! The analyzer of defaults and the generator agree. A missing default is reported for just those
properties of reference types that are created with null and without a method for the default. -/

namespace Bindable

/-- A primitive type is a value type if its kind is one. -/
def TypeReference.IsConsistent (t : TypeReference) : Prop :=
  ∀ p ∈ t.primitive, t.isValueType = !p.isReference

namespace Expr

def isNull : Expr → Bool
  | literal .null => true
  | _ => false

/-- The call creates a property with null as default, and nothing makes another one. -/
def leavesNull (call : Expr) : Bool :=
  (call.argument? "defaultValue").any isNull && (call.argument? "defaultValueCreator").any isNull

end Expr

section NotNull

variable {v : Constant} {e : Expr} {target : Primitive}

theorem Expr.kind?_of_isNull (h : e.isNull) : e.kind? = some .string := by
  unfold isNull at h
  split at h
  · rfl
  · cases h

theorem Constant.isNull_literal? (hv : v.isNull = false) (h : v.literal? = some e) :
    e.isNull = false := by
  unfold literal? at h
  split at h
  · cases h
  cases v with
  | null => cases hv
  | enumeration _ _ => cases h
  | bool | char | integer | single | double | string | type =>
    obtain rfl := Option.some_inj.mp h
    rfl

/-- Only the constant null becomes the expression null. -/
theorem Constant.isNull_convert? (hv : v.isNull = false) (h : v.convert? target = some e) :
    e.isNull = false := by
  have hs := Constant.isSupplementary_of_convert? h
  by_cases hobject : target = .object
  · subst hobject
    cases v with
    | enumeration name n =>
      obtain rfl := Option.some_inj.mp h
      rfl
    | _ => exact Constant.isNull_literal? hv (by simpa [convert?, hs] using h)
  by_cases hstring : target = .string
  · subst hstring
    cases v with
    | string s => exact Constant.isNull_literal? hv (by simpa [convert?, hs] using h)
    | null => cases hv
    | _ => simp [convert?, hs] at h
  · -- the expression has the target's kind, and null has the kind of a text
    by_contra hnull
    have hkind := Expr.kind?_of_isNull (by simpa using hnull)
    rw [Constant.convert?_kind? hobject h, Option.some_inj] at hkind
    exact hstring hkind

theorem Constant.isNull_convertToEnum? {symbol : EnumSymbol} {display : String}
    (h : v.convertToEnum? symbol display = some e) : e.isNull = false := by
  unfold convertToEnum? at h
  obtain ⟨n, -, h⟩ := Option.bind_eq_some_iff.mp h
  cases hmember : symbol.memberWithValue? n with
  | some m =>
    rw [hmember] at h
    obtain rfl := Option.some_inj.mp h
    rfl
  | none =>
    rw [hmember] at h
    obtain ⟨-, h⟩ := Option.ite_none_right_eq_some.mp h
    have hcast : ∃ value, some (.cast display value) = some e := by
      split at h
      · obtain ⟨value, -, h⟩ := Option.bind_eq_some_iff.mp h
        exact ⟨value, h⟩
      · obtain ⟨value, -, h⟩ := Option.bind_eq_some_iff.mp h
        exact ⟨value, h⟩
    obtain ⟨value, h⟩ := hcast
    obtain rfl := Option.some_inj.mp h
    rfl

/-- A type that has no null takes none as a default either. -/
theorem Compilation.isNull_convertDefault? {c : Compilation} {t : TypeReference}
    (hnullable : t.nullable = false) (h : c.convertDefault? v t = some e) :
    e.isNull = v.isNull ∧ (v.isNull → t.isValueType = false) := by
  rw [convertDefault?] at h
  cases hnull : v.isNull with
  | true =>
    cases hsymbol : c.enumOf? t with
    | some symbol => simp [hsymbol, hnull, hnullable] at h
    | none =>
      simp only [hsymbol, hnull, hnullable, if_true] at h
      obtain ⟨hreference, h⟩ := Option.ite_none_right_eq_some.mp h
      obtain rfl := Option.some_inj.mp h
      exact ⟨rfl, fun _ => by simpa using hreference⟩
  | false =>
    refine ⟨?_, by simp⟩
    cases hsymbol : c.enumOf? t with
    | some symbol =>
      simp only [hsymbol, hnull] at h
      exact Constant.isNull_convertToEnum? h
    | none =>
      simp only [hsymbol, hnull] at h
      obtain ⟨target, -, h⟩ := Option.bind_eq_some_iff.mp h
      exact Constant.isNull_convert? hnull h

end NotNull

namespace Descriptor

variable {c : Compilation} {base d : Descriptor} {a : Attribute}

theorem isNull_defaultExpr_of_none (hdefault : d.defaultValue = none)
    (htype : d.propertyType.IsConsistent) (hnullable : d.propertyType.nullable = false)
    (hparameter : d.propertyType.isTypeParameter = false) :
    d.defaultExpr.isNull = !d.propertyType.isValueType := by
  cases hp : d.propertyType.primitive with
  | none =>
    cases hvalue : d.propertyType.isValueType <;>
      simp [defaultExpr, hdefault, hp, hvalue, hnullable, hparameter, Expr.isNull, Expr.null]
  | some p =>
    rw [htype p hp, Bool.not_not]
    cases hreference : p.isReference <;>
      simp [defaultExpr, hdefault, hp, hreference, hnullable, Expr.isNull, Expr.null]

theorem leavesNull_createCall (d : Descriptor) :
    d.createCall.leavesNull = (d.defaultExpr.isNull && !d.emitsFactory) := by
  rw [Expr.leavesNull, argument?_defaultValue, argument?_defaultValueCreator]
  cases d.emitsFactory <;> rfl

/-- Where the type has no null, the property is left without a value just if its type is one of
references and the marker supplies no default. -/
theorem leavesNull_eq (hbase : base.defaultValue = none)
    (happly : (base.applyArguments c a.namedArguments).descriptor = some d)
    (htype : d.propertyType.IsConsistent) (hnullable : d.propertyType.nullable = false)
    (hparameter : d.propertyType.isTypeParameter = false) :
    d.createCall.leavesNull = (!d.propertyType.isValueType && !Analysis.suppliesDefault a) := by
  obtain ⟨s, value, hs, rfl, hvalue⟩ := exists_of_applyArguments happly
  have hfactory : s.hasFactory = a.flag "DefaultValueFactory" := by
    rw [hs, Settings.hasFactory_ofArguments]
  have hgiven : s.defaultValue = a.named? "DefaultValue" := by
    rw [hs, Settings.defaultValue_ofArguments]
  rw [leavesNull_createCall, Analysis.suppliesDefault, ← hfactory, ← hgiven]
  rcases hvalue with ⟨hvalue, hnull⟩ | ⟨v, hv, hunused, e, he, rfl⟩
  · -- nothing is kept as a default: none was given, or null beside a factory
    have hdefault : (base.withSettings s value).defaultValue = none := hvalue.trans hbase
    have hnone : ((s.defaultValue.map fun v => !v.isNull).getD false) = false := by
      cases hv : s.defaultValue with
      | none => rfl
      | some v => simp [(hnull v hv).1]
    rw [isNull_defaultExpr_of_none hdefault htype hnullable hparameter, emitsFactory, hdefault,
      hnone, Bool.false_or, Option.isNone_none, Bool.and_true]
    rfl
  · -- the given default is kept, so that no factory is used
    obtain ⟨heq, hreference⟩ := Compilation.isNull_convertDefault? hnullable he
    have hdefault : (base.withSettings s (some e)).defaultExpr = e := rfl
    have hcreator : (base.withSettings s (some e)).emitsFactory = false := Bool.and_false _
    rw [hdefault, hcreator, heq, hv]
    cases hnull : v.isNull with
    | true =>
      have hfactory : s.hasFactory = false := by simpa [hnull] using hunused
      have hvalueType : (base.withSettings s (some e)).propertyType.isValueType = false :=
        hreference hnull
      rw [hfactory, hvalueType]
      simp [hnull]
    | false => simp [hnull]

theorem leavesNull_eq_reported (hbase : base.defaultValue = none)
    (happly : (base.applyArguments c a.namedArguments).descriptor = some d)
    (htype : d.propertyType.IsConsistent) :
    (!d.propertyType.nullable && !d.propertyType.isTypeParameter && d.createCall.leavesNull) =
      (d.propertyType.isNonNullableReference && !Analysis.suppliesDefault a) := by
  rw [TypeReference.isNonNullableReference]
  cases hnullable : d.propertyType.nullable with
  | true => simp
  | false =>
    cases hparameter : d.propertyType.isTypeParameter with
    | true => simp
    | false => simp [leavesNull_eq hbase happly htype hnullable hparameter]

end Descriptor

namespace Compilation

variable {c : Compilation} {t : TypeDeclaration} {v : Visit} {occurrence : Occurrence}
  {d : Descriptor}

theorem exists_base_of_visit (hv : v.occurrence? = some occurrence)
    (hread : (c.read t occurrence).descriptor = some d) :
    ∃ base : Descriptor, base.defaultValue = none ∧
      (base.applyArguments c occurrence.marker.namedArguments).descriptor = some d ∧
      Analysis.defaultValueAt t v =
        if base.propertyType.isNonNullableReference &&
            !Analysis.suppliesDefault occurrence.marker then
          [.report .defaultValueNull [base.name, base.propertyType.display] base.location]
        else [] := by
  cases v with
  | typeAttribute a =>
    obtain rfl := Option.some_inj.mp hv
    obtain ⟨base, hbase, hlocation, htypes, hname, -⟩ := exists_base_of_onType hread
    rw [hbase.read_eq] at hread
    refine ⟨base, hbase.defaultValue, hread, ?_⟩
    simp only [Analysis.defaultValueAt, Analysis.missingDefault, htypes, hname, hlocation]
    rfl
  | propertyAttribute p a =>
    obtain rfl := Option.some_inj.mp hv
    obtain ⟨hsite, base, hbase, hlocation, htype, -, hname⟩ := exists_base_of_onProperty hread
    rw [hbase.read_eq] at hread
    refine ⟨base, hbase.defaultValue, hread, ?_⟩
    rw [Analysis.defaultValueAt, if_pos hsite, htype, hname, hlocation]
    rfl
  | methodAttribute m a =>
    obtain rfl := Option.some_inj.mp hv
    obtain ⟨hsite, base, hbase, hlocation, htype, -, hname⟩ := exists_base_of_onMethod hread
    rw [hbase.read_eq] at hread
    refine ⟨base, hbase.defaultValue, hread, ?_⟩
    rw [Analysis.defaultValueAt, if_pos hsite, htype, hname, hlocation]
    rfl
  | property p => cases hv
  | method m => cases hv

/-- What the analyzer reports where the marker stands, by the call that creates the property. -/
theorem defaultValue_check_eq (hv : v.occurrence? = some occurrence)
    (hread : (c.read t occurrence).descriptor = some d) (htype : d.propertyType.IsConsistent)
    (o : Options) :
    ∃ call, (d.members o).filterMap (·.creation?) = [call] ∧
      ∀ before after, t.walk = before ++ v :: after →
        Analyzer.defaultValue.check c t =
          before.flatMap (Analysis.defaultValueAt t) ++
            (if !d.propertyType.nullable && !d.propertyType.isTypeParameter && call.leavesNull then
              [.report .defaultValueNull [d.name, d.propertyType.display] d.location]
            else []) ++
            after.flatMap (Analysis.defaultValueAt t) := by
  obtain ⟨base, hbase, happly, hreport⟩ := exists_base_of_visit hv hread
  refine ⟨d.createCall, d.members_creation? o, fun before after hwalk => ?_⟩
  have hown : Analysis.defaultValueAt t v =
      if !d.propertyType.nullable && !d.propertyType.isTypeParameter && d.createCall.leavesNull then
        [.report .defaultValueNull [d.name, d.propertyType.display] d.location]
      else [] := by
    have hcondition := Descriptor.leavesNull_eq_reported hbase happly htype
    obtain ⟨s, value, -, rfl, -⟩ := Descriptor.exists_of_applyArguments happly
    rw [hreport, hcondition]
    rfl
  rw [Analyzer.check, Analysis.defaultValue, hwalk, List.flatMap_append, List.flatMap_cons, hown,
    List.append_assoc]

theorem defaultValue_check_eq_text :
    let marker : Attribute :=
      { name := "BindableProperty", typeArguments := [.ofPrimitive .string],
        arguments := [.string "Text"], namedArguments := [], location := none }
    let label : TypeDeclaration := { (default : TypeDeclaration) with attributes := [marker] }
    ∃ d call, ((default : Compilation).read label (.onType marker)).descriptor = some d ∧
      d.propertyType.IsConsistent ∧ (d.members default).filterMap (·.creation?) = [call] ∧
      call.leavesNull ∧
      Analyzer.defaultValue.check default label =
        [.report .defaultValueNull ["Text", "string"] none] := by
  intro marker label
  have hmarked : ((default : Compilation).read label (.onType marker)).descriptor.map
      (·.propertyType) = some (.ofPrimitive .string) := by
    decide +kernel
  have hreport : Analyzer.defaultValue.check default label =
      [.report .defaultValueNull ["Text", "string"] none] := by
    decide +kernel
  obtain ⟨d, hread, htype⟩ := Option.map_eq_some_iff.mp hmarked
  have hconsistent : d.propertyType.IsConsistent := by
    rw [htype]
    rintro p ⟨⟩
    rfl
  obtain ⟨call, hcall, hcheck⟩ :=
    defaultValue_check_eq (v := .typeAttribute marker) rfl hread hconsistent default
  have hown := (hcheck [] [] rfl).symm.trans hreport
  refine ⟨d, call, hread, hconsistent, hcall, ?_, hreport⟩
  by_contra hvalue
  simp [hvalue] at hown

end Compilation

end Bindable
