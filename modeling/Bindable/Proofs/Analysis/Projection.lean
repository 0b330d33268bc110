import Bindable.Analysis.Platform
import Bindable.Proofs.Marker.Places
import Bindable.Proofs.Marker.Settings

/-! Which properties of a view are projected to the platform. Markers on the type are heard, and so is
the attribute that a property has for this; a marker on a member asks for nothing. -/

namespace Bindable

/-- The last word on it is that the property is projected. -/
def Attribute.AsksForProjection (a : Attribute) : Prop :=
  a.named? "ProjectToPlatform" = some (.bool true)

namespace Occurrence

/-- What an attribute is written for: that the property of this name is projected. -/
def Requests : Occurrence → String → Prop
  | onType a, name => a.family?.isSome ∧ a.AsksForProjection ∧ a.givenName? = some name
  | onProperty p a, name =>
    p.name = name ∧
      (a.simpleName = "PlatformProperty" ∨ a.family? = some .onInstance ∧ a.AsksForProjection)
  | onMethod m a, name =>
    a.family? = some .attached ∧ a.AsksForProjection ∧ m.isStatic ∧ Text.isIdentifier name ∧
      m.name = "Get" ++ name

def IsMemberMarker : Occurrence → Prop
  | onType _ => False
  | onProperty _ a | onMethod _ a => a.family?.isSome

end Occurrence

instance : DecidablePred Attribute.AsksForProjection :=
  fun _ => inferInstanceAs (Decidable (_ = _))

instance : ∀ (o : Occurrence) (name : String), Decidable (o.Requests name)
  | .onType _, _ => inferInstanceAs (Decidable (_ ∧ _ ∧ _))
  | .onProperty _ _, _ => inferInstanceAs (Decidable (_ ∧ (_ ∨ _ ∧ _)))
  | .onMethod _ _, _ => inferInstanceAs (Decidable (_ ∧ _ ∧ _ ∧ _ ∧ _))

def TypeDeclaration.Requests (view : TypeDeclaration) (name : String) : Prop :=
  ∃ o ∈ view.places, o.Requests name

theorem Attribute.family?_of_platformProperty {a : Attribute}
    (h : a.simpleName = "PlatformProperty") : a.family? = none := by
  simp [family?, h]

namespace Analysis

variable {view : TypeDeclaration} {name : String}

theorem mem_projectedProperties_iff : name ∈ projectedProperties view ↔
    ∃ o ∈ view.places, o.Requests name ∧ ¬ o.IsMemberMarker := by
  have htype : name ∈ (view.attributes.filter fun a =>
        a.family?.isSome && a.flag "ProjectToPlatform").filterMap (·.givenName?) ↔
      ∃ a ∈ view.attributes, (Occurrence.onType a).Requests name ∧
        ¬ (Occurrence.onType a).IsMemberMarker := by
    simp only [List.mem_filterMap, List.mem_filter, Bool.and_eq_true, Attribute.flag_eq_true_iff,
      Occurrence.Requests, Occurrence.IsMemberMarker, Attribute.AsksForProjection, and_assoc,
      not_false_eq_true, and_true]
  have hproperty : name ∈ (view.properties.filter fun p =>
        p.attributes.any fun a => a.simpleName = "PlatformProperty").map (·.name) ↔
      ∃ p ∈ view.properties, ∃ a ∈ p.attributes, (Occurrence.onProperty p a).Requests name ∧
        ¬ (Occurrence.onProperty p a).IsMemberMarker := by
    simp only [List.mem_map, List.mem_filter, List.any_eq_true, decide_eq_true_eq]
    constructor
    · rintro ⟨p, ⟨hp, a, ha, hplatform⟩, hname⟩
      refine ⟨p, hp, a, ha, ⟨hname, .inl hplatform⟩, ?_⟩
      simp [Occurrence.IsMemberMarker, Attribute.family?_of_platformProperty hplatform]
    · rintro ⟨p, hp, a, ha, ⟨hname, hplatform | ⟨hfamily, -⟩⟩, hother⟩
      · exact ⟨p, ⟨hp, a, ha, hplatform⟩, hname⟩
      · simp [Occurrence.IsMemberMarker, hfamily] at hother
  -- on a method there is nothing but markers to ask with
  have hmethod : ¬ ∃ m ∈ view.methods, ∃ a ∈ m.attributes,
      (Occurrence.onMethod m a).Requests name ∧ ¬ (Occurrence.onMethod m a).IsMemberMarker := by
    rintro ⟨m, -, a, -, ⟨hfamily, -⟩, hother⟩
    simp [Occurrence.IsMemberMarker, hfamily] at hother
  rw [projectedProperties, List.mem_append, htype, hproperty, view.exists_mem_places]
  simp only [hmethod, or_false]

/-- A property is projected if another attribute than a marker on a member asks for it. So every request
is heard just if what a marker on a member asks for is asked for elsewhere as well. -/
theorem projectedProperties_requested_iff (view : TypeDeclaration) :
    (∀ name, name ∈ projectedProperties view ↔
      ∃ o ∈ view.places, o.Requests name ∧ ¬ o.IsMemberMarker) ∧
    ((∀ name, name ∈ projectedProperties view ↔ view.Requests name) ↔
      ∀ o ∈ view.places, o.IsMemberMarker → ∀ name, o.Requests name →
        ∃ other ∈ view.places, other.Requests name ∧ ¬ other.IsMemberMarker) := by
  refine ⟨fun name => mem_projectedProperties_iff, ?_, ?_⟩
  · intro hall o ho _ name hrequests
    exact mem_projectedProperties_iff.mp ((hall name).mpr ⟨o, ho, hrequests⟩)
  · intro hmembers name
    rw [mem_projectedProperties_iff]
    constructor
    · rintro ⟨o, ho, hrequests, -⟩
      exact ⟨o, ho, hrequests⟩
    · rintro ⟨o, ho, hrequests⟩
      by_cases hmember : o.IsMemberMarker
      · exact hmembers o ho hmember name hrequests
      · exact ⟨o, ho, hrequests, hmember⟩

/-- A view whose only requests are by markers on members. -/
def gauge : TypeDeclaration :=
  let marker (name : String) : Attribute :=
    { name, arguments := [], typeArguments := [], location := none
      namedArguments := [⟨"ProjectToPlatform", .bool true⟩] }
  { (default : TypeDeclaration) with
    properties := [{ (default : Property) with
      name := "Value", attributes := [marker "BindableProperty"] }]
    methods := [{ (default : Method) with
      name := "GetScale", isStatic := true, attributes := [marker "AttachedBindableProperty"] }] }

theorem projectedProperties_requested_iff_gauge :
    gauge.Requests "Value" ∧ gauge.Requests "Scale" ∧ projectedProperties gauge = [] ∧
      ∃ o ∈ gauge.places, o.IsMemberMarker ∧ ∃ name, o.Requests name ∧
        ∀ other ∈ gauge.places, other.Requests name → other.IsMemberMarker := by
  have hvalue : ∃ o ∈ gauge.places, o.Requests "Value" := by decide +kernel
  have hscale : ∃ o ∈ gauge.places, o.Requests "Scale" := by decide +kernel
  have hnone : projectedProperties gauge = [] := by decide +kernel
  have hunheard : ¬ ∀ name, name ∈ projectedProperties gauge ↔ gauge.Requests name := by
    intro hall
    have hmem := (hall "Value").mpr hvalue
    rw [hnone] at hmem
    cases hmem
  rw [(projectedProperties_requested_iff gauge).2] at hunheard
  push Not at hunheard
  exact ⟨hvalue, hscale, hnone, hunheard⟩

end Analysis

end Bindable
