import Bindable.Proofs.Generation.ArgumentOrder

/-! Which setters the analyzer of usage lets pass. It looks for the field or its key in the body of a
setter, and the arguments of the marker settle which of the two the property is written through: a
setter may pass that names the other one only. -/

namespace Bindable

namespace Descriptor

/-- The fields that a body may name. -/
def handles (d : Descriptor) : List String := [MemberName.field d.name, MemberName.key d.name]

theorem writeHandle_mem_handles (d : Descriptor) : d.writeHandle ∈ d.handles := by
  rw [writeHandle, handles]
  cases d.shape <;> simp

end Descriptor

namespace Analysis

variable {p : Property} {body : Option String}

theorem readsField_iff {name : String} :
    readsField name body ↔ ∃ b ∈ body, Text.references b (MemberName.field name) := by
  cases body <;> simp [readsField]

theorem writesThrough_iff {d : Descriptor} :
    writesThrough d.name body ↔ ∃ b ∈ body, ∃ handle ∈ d.handles, Text.references b handle := by
  cases body <;> simp [writesThrough, Descriptor.handles]

/-- A property with a setter has no other body that could stand for its accessors. -/
theorem usesField_iff (h : p.hasSetter) : usesField p ↔
    (∀ getter ∈ p.getter, readsField p.name getter.body) ∧
      ∃ setter ∈ p.setter, writesThrough p.name setter.body := by
  rw [Property.hasSetter, Bool.and_eq_true, Option.isNone_iff_eq_none,
    Option.isSome_iff_exists] at h
  obtain ⟨hexpression, setter, hsetter⟩ := h
  -- what passes has a body, so that the accessors are not left to the compiler
  have hauto (hbody : writesThrough p.name setter.body) : !p.isAutoImplemented := by
    cases hs : setter.body with
    | none => simp [hs, writesThrough] at hbody
    | some b => simp [Property.isAutoImplemented, hsetter, hs]
  have hreads : (readsField p.name (p.getter.bind (·.body)) ||
      (p.getter.bind (·.body)).isNone && p.getter.isNone) ↔
      ∀ getter ∈ p.getter, readsField p.name getter.body := by
    cases p.getter <;> simp [readsField]
  simp only [usesField, hexpression, hsetter, Option.none_or, Option.isSome_none, Bool.false_or,
    Bool.and_eq_true, hreads, Option.mem_some_iff, exists_eq_left']
  constructor
  · rintro ⟨⟨-, hgetter⟩, hbody⟩
    exact ⟨hgetter, hbody⟩
  · rintro ⟨hgetter, hbody⟩
    exact ⟨⟨hauto hbody, hgetter⟩, hbody⟩

end Analysis

namespace Compilation

variable {c : Compilation} {t : TypeDeclaration} {p : Property} {a : Attribute} {d : Descriptor}

theorem propertyUsage_eq (hread : (c.read t (.onProperty p a)).descriptor = some d) :
    d.name = p.name ∧ Analysis.propertyUsage p a =
      if Analysis.usesField p then []
      else [.report .instancePropertyNotUsed [d.name, MemberName.field d.name] d.location] := by
  obtain ⟨⟨hfamily, hstatic, hindexer⟩, base, hbase, hlocation, -, -, hname⟩ :=
    exists_base_of_onProperty hread
  rw [hbase.read_eq] at hread
  obtain ⟨s, value, -, rfl, -⟩ := Descriptor.exists_of_applyArguments hread
  rw [Bool.not_eq_true'] at hstatic hindexer
  refine ⟨hname, ?_⟩
  simp only [Analysis.propertyUsage, hfamily, hstatic, hindexer, Bool.false_eq_true, if_false,
    Descriptor.withSettings, hname, hlocation]

/-- Nothing is reported at the marker of a property with a setter if and only if its getter names the
field and its setter the field or the key. The property is written through one of these, and not
every setter that passes names that one. -/
theorem usage_check_setter (hread : (c.read t (.onProperty p a)).descriptor = some d)
    (hset : p.hasSetter) :
    (∀ before after, t.places = before ++ .onProperty p a :: after →
      Analyzer.usage.check c t =
        before.flatMap (Analysis.usageAt t) ++ Analysis.propertyUsage p a ++
          after.flatMap (Analysis.usageAt t)) ∧
    (Analysis.propertyUsage p a = [] ↔
      (∀ getter ∈ p.getter, ∃ b ∈ getter.body, Text.references b (MemberName.field d.name)) ∧
        ∃ setter ∈ p.setter, ∃ b ∈ setter.body, ∃ handle ∈ d.handles,
          Text.references b handle) ∧
    (Analysis.propertyUsage p a ≠ [] → Analysis.propertyUsage p a =
      [.report .instancePropertyNotUsed [d.name, MemberName.field d.name] d.location]) ∧
    d.writeHandle ∈ d.handles := by
  obtain ⟨hname, hreports⟩ := propertyUsage_eq hread
  refine ⟨fun before after hplaces => ?_, ?_, ?_, d.writeHandle_mem_handles⟩
  · rw [Analyzer.check, Analysis.usage_eq, hplaces, List.flatMap_append, List.flatMap_cons,
      Analysis.usageAt, List.append_assoc]
  · have hempty : Analysis.propertyUsage p a = [] ↔ Analysis.usesField p := by
      rw [hreports]
      cases Analysis.usesField p <;> simp
    simp only [hempty, Analysis.usesField_iff hset, ← hname, Analysis.readsField_iff,
      Analysis.writesThrough_iff]
  · rw [hreports]
    cases Analysis.usesField p <;> simp

section OtherHandle

/-- A marker on the property, with or without the argument that makes it read-only. -/
def captionMarker (isReadOnly : Bool) : Attribute :=
  { name := "BindableProperty", typeArguments := [], arguments := [],
    namedArguments := if isReadOnly then [⟨"IsReadOnly", .bool true⟩] else [], location := none }

def captionProperty (isReadOnly : Bool) (setter : String) : Property :=
  { name := "Caption", type := .ofPrimitive .string, isStatic := false, isIndexer := false,
    getter := some ⟨some "(string)GetValue(CaptionProperty)"⟩, setter := some ⟨some setter⟩,
    expressionBody := none, attributes := [captionMarker isReadOnly], location := none }

def captionLabel (isReadOnly : Bool) (setter : String) : TypeDeclaration :=
  { (default : TypeDeclaration) with properties := [captionProperty isReadOnly setter] }

def captionReading (isReadOnly : Bool) (setter : String) : Reading :=
  (default : Compilation).read (captionLabel isReadOnly setter)
    (.onProperty (captionProperty isReadOnly setter) (captionMarker isReadOnly))

/-- A property written through its key whose setter names the field passes, and one written through
its field whose setter names the key. -/
theorem usage_check_otherHandle :
    (∃ d, (captionReading true "SetValue(CaptionProperty, value)").descriptor = some d ∧
      d.shape = .readOnly ∧ d.writeHandle = "CaptionPropertyKey" ∧
      Analyzer.usage.check default (captionLabel true "SetValue(CaptionProperty, value)") = [] ∧
      ¬ Text.references "SetValue(CaptionProperty, value)" d.writeHandle) ∧
    ∃ d, (captionReading false "SetValue(CaptionPropertyKey, value)").descriptor = some d ∧
      d.shape = .writable ∧ d.writeHandle = "CaptionProperty" ∧
      Analyzer.usage.check default (captionLabel false "SetValue(CaptionPropertyKey, value)") = [] ∧
      ¬ Text.references "SetValue(CaptionPropertyKey, value)" d.writeHandle := by
  have hkey : (captionReading true "SetValue(CaptionProperty, value)").descriptor.map
      (fun d => (d.shape, d.writeHandle)) = some (.readOnly, "CaptionPropertyKey") := by
    decide +kernel
  have hfield : (captionReading false "SetValue(CaptionPropertyKey, value)").descriptor.map
      (fun d => (d.shape, d.writeHandle)) = some (.writable, "CaptionProperty") := by
    decide +kernel
  obtain ⟨d, hd, heq⟩ := Option.map_eq_some_iff.mp hkey
  obtain ⟨e, he, heq'⟩ := Option.map_eq_some_iff.mp hfield
  rw [Prod.mk.injEq] at heq heq'
  refine ⟨⟨d, hd, heq.1, heq.2, by decide +kernel, ?_⟩, e, he, heq'.1, heq'.2, by decide +kernel, ?_⟩
  · rw [heq.2]
    decide +kernel
  · rw [heq'.2]
    decide +kernel

theorem usage_check_setter_otherField :
    ∃ d, (captionReading true "SetValue(OtherProperty, value)").descriptor = some d ∧
      (captionProperty true "SetValue(OtherProperty, value)").hasSetter ∧
      d.handles = ["CaptionProperty", "CaptionPropertyKey"] ∧
      Analyzer.usage.check default (captionLabel true "SetValue(OtherProperty, value)") =
        [.report .instancePropertyNotUsed ["Caption", "CaptionProperty"] none] := by
  have hmarked : (captionReading true "SetValue(OtherProperty, value)").descriptor.map
      (fun d => (d.name, d.location)) = some ("Caption", none) := by
    decide +kernel
  obtain ⟨d, hread, heq⟩ := Option.map_eq_some_iff.mp hmarked
  obtain ⟨hname, hlocation⟩ := Prod.mk.inj heq
  have hhandles : d.handles = ["CaptionProperty", "CaptionPropertyKey"] := by
    rw [Descriptor.handles, hname]
    decide
  obtain ⟨hcheck, hempty, hreport, -⟩ := usage_check_setter hread rfl
  have hsilent : Analysis.propertyUsage (captionProperty true "SetValue(OtherProperty, value)")
      (captionMarker true) ≠ [] := by
    rw [ne_eq, hempty, hhandles]
    rintro ⟨-, setter, hsetter, b, hb, handle, hhandle, href⟩
    obtain rfl := Option.some_inj.mp hsetter
    obtain rfl := Option.some_inj.mp hb
    simp only [List.mem_cons, List.not_mem_nil, or_false] at hhandle
    obtain rfl | rfl := hhandle
    · exact absurd href (by decide +kernel)
    · exact absurd href (by decide +kernel)
  refine ⟨d, hread, rfl, hhandles, ?_⟩
  have hfield : MemberName.field "Caption" = "CaptionProperty" := by decide
  rw [hcheck [] [] rfl, hreport hsilent, hname, hlocation, hfield]
  rfl

end OtherHandle

end Compilation

end Bindable
