import Bindable.Proofs.Marker.Places
import Bindable.Proofs.Marker.Reading
import Bindable.Proofs.Marker.Settings
import Mathlib.Data.List.Forall2

/-! Declarations that differ in the order of named arguments. Their markers are read alike, up to
the order of what is reported. -/

namespace Bindable

/-- The attribute without its named arguments. -/
def Attribute.bare (a : Attribute) : Attribute := { a with namedArguments := [] }

/-- The named arguments come in another order; no name is given twice. -/
structure Attribute.Reordered (a b : Attribute) : Prop where
  bare_eq : a.bare = b.bare
  perm : a.namedArguments.Perm b.namedArguments
  nodup : (a.namedArguments.map (·.name)).Nodup

structure Property.Reordered (p q : Property) : Prop where
  bare_eq : p.bare = q.bare
  attributes : List.Forall₂ Attribute.Reordered p.attributes q.attributes

structure Method.Reordered (m n : Method) : Prop where
  bare_eq : m.bare = n.bare
  attributes : List.Forall₂ Attribute.Reordered m.attributes n.attributes

structure TypeDeclaration.Reordered (t u : TypeDeclaration) : Prop where
  bare_eq : t.bare = u.bare
  attributes : List.Forall₂ Attribute.Reordered t.attributes u.attributes
  properties : List.Forall₂ Property.Reordered t.properties u.properties
  methods : List.Forall₂ Method.Reordered t.methods u.methods

structure Compilation.Reordered (c d : Compilation) : Prop where
  assemblyName : c.assemblyName = d.assemblyName
  referencedAssemblies : c.referencedAssemblies = d.referencedAssemblies
  options : c.options = d.options
  types : List.Forall₂ TypeDeclaration.Reordered c.types d.types
  externalTypes : List.Forall₂ TypeDeclaration.Reordered c.externalTypes d.externalTypes

/-- The same marker, in two orders of its arguments. -/
inductive Occurrence.Reordered : Occurrence → Occurrence → Prop where
  | onType {a b : Attribute} (h : a.Reordered b) : Reordered (.onType a) (.onType b)
  | onProperty {p q : Property} {a b : Attribute} (hbare : p.bare = q.bare) (h : a.Reordered b) :
      Reordered (.onProperty p a) (.onProperty q b)
  | onMethod {m n : Method} {a b : Attribute} (hbare : m.bare = n.bare) (h : a.Reordered b) :
      Reordered (.onMethod m a) (.onMethod n b)

section Lists

variable {α β γ : Type} {R : α → β → Prop} {l : List α} {l' : List β}

theorem map_eq_of_forall₂ {f : α → γ} {g : β → γ} (hR : ∀ a b, R a b → f a = g b)
    (h : List.Forall₂ R l l') : l.map f = l'.map g := by
  induction h with
  | nil => rfl
  | cons hab _ ih => rw [List.map_cons, List.map_cons, hR _ _ hab, ih]

theorem filterMap_eq_of_forall₂ {f : α → Option γ} {g : β → Option γ}
    (hR : ∀ a b, R a b → f a = g b) (h : List.Forall₂ R l l') : l.filterMap f = l'.filterMap g := by
  induction h with
  | nil => rfl
  | cons hab _ ih => rw [List.filterMap_cons, List.filterMap_cons, hR _ _ hab, ih]

theorem any_eq_of_forall₂ {f : α → Bool} {g : β → Bool} (hR : ∀ a b, R a b → f a = g b)
    (h : List.Forall₂ R l l') : l.any f = l'.any g := by
  induction h with
  | nil => rfl
  | cons hab _ ih => rw [List.any_cons, List.any_cons, hR _ _ hab, ih]

theorem flatMap_eq_of_forall₂ {f : α → List γ} {g : β → List γ} (hR : ∀ a b, R a b → f a = g b)
    (h : List.Forall₂ R l l') : l.flatMap f = l'.flatMap g := by
  rw [List.flatMap_def, List.flatMap_def, map_eq_of_forall₂ hR h]

theorem filter_of_forall₂ {p : α → Bool} {q : β → Bool} (hR : ∀ a b, R a b → p a = q b)
    (h : List.Forall₂ R l l') : List.Forall₂ R (l.filter p) (l'.filter q) :=
  List.rel_filter (fun a b hab => by simp only [hR a b hab]) h

theorem find?_of_forall₂ {p : α → Bool} {q : β → Bool} (hR : ∀ a b, R a b → p a = q b)
    (h : List.Forall₂ R l l') : Option.Rel R (l.find? p) (l'.find? q) := by
  induction h with
  | nil => exact .none
  | @cons a b _ _ hab _ ih =>
    cases hb : q b with
    | true =>
      rw [List.find?_cons_of_pos (hR a b hab ▸ hb), List.find?_cons_of_pos hb]
      exact .some hab
    | false =>
      rw [List.find?_cons_of_neg (by simp [hR a b hab, hb]), List.find?_cons_of_neg (by simp [hb])]
      exact ih

theorem flatMap_perm_of_forall₂ {f : α → List γ} {g : β → List γ}
    (hR : ∀ a b, R a b → (f a).Perm (g b)) (h : List.Forall₂ R l l') :
    (l.flatMap f).Perm (l'.flatMap g) := by
  induction h with
  | nil => exact .refl _
  | cons hab _ ih =>
    rw [List.flatMap_cons, List.flatMap_cons]
    exact (hR _ _ hab).append ih

end Lists

namespace Attribute.Reordered

variable {a b : Attribute}

/-- What does not look at named arguments does not see their order. -/
theorem congr {α : Type} {f : Attribute → α} (hf : ∀ a, f a.bare = f a) (h : a.Reordered b) :
    f a = f b := by
  rw [← hf, h.bare_eq, hf]

theorem location_eq (h : a.Reordered b) : a.location = b.location := h.congr fun _ => rfl

theorem simpleName_eq (h : a.Reordered b) : a.simpleName = b.simpleName := h.congr fun _ => rfl

theorem family?_eq (h : a.Reordered b) : a.family? = b.family? := by
  rw [family?, family?, h.simpleName_eq]

theorem typeArguments_eq (h : a.Reordered b) : a.typeArguments = b.typeArguments :=
  h.congr fun _ => rfl

theorem markedTypes?_eq (h : a.Reordered b) : a.markedTypes? = b.markedTypes? := by
  rw [markedTypes?, markedTypes?, h.family?_eq, h.typeArguments_eq]

theorem givenName?_eq (h : a.Reordered b) : a.givenName? = b.givenName? := h.congr fun _ => rfl

theorem named?_eq (h : a.Reordered b) (key : String) : a.named? key = b.named? key := by
  have hlast : ∀ a : Attribute, a.named? key = (valuesOf key a.namedArguments).getLast? := by
    intro a
    rw [named?, valuesOf, List.getLast?_map, ← List.head?_filter, List.filter_reverse,
      List.head?_reverse]
  rw [hlast, hlast, valuesOf_perm h.perm h.nodup]

theorem flag_eq (h : a.Reordered b) (key : String) : a.flag key = b.flag key := by
  rw [flag, flag, h.named?_eq]

end Attribute.Reordered

/-- The outcomes are the same, up to the order of what is reported. -/
structure Reading.Alike (r s : Reading) : Prop where
  descriptor : r.descriptor = s.descriptor
  diagnostics : r.diagnostics.Perm s.diagnostics

theorem Reading.Alike.refl (r : Reading) : r.Alike r := ⟨rfl, .refl _⟩

section Arguments

variable {args args' : List NamedArgument}

theorem Settings.ofArguments_perm (hperm : args.Perm args') (hnodup : (args.map (·.name)).Nodup)
    (property : String) (location : Option Location) (isReadOnly : Bool) :
    ∃ ds, (ofArguments property location isReadOnly args).diagnostics.Perm ds ∧
      ofArguments property location isReadOnly args' =
        { ofArguments property location isReadOnly args with diagnostics := ds } := by
  refine ⟨args'.flatMap (complaints property location), ?_, ?_⟩
  · rw [ofArguments, foldl_apply_eq]
    exact hperm.flatMap_right _
  · simp only [ofArguments, foldl_apply_eq, valuesOf_perm hperm hnodup, List.nil_append]

theorem Descriptor.applyArguments_perm (c : Compilation) (base : Descriptor)
    (hperm : args.Perm args') (hnodup : (args.map (·.name)).Nodup) :
    (base.applyArguments c args).Alike (base.applyArguments c args') := by
  obtain ⟨ds, hds, hsettings⟩ :=
    Settings.ofArguments_perm hperm hnodup base.name base.location base.isReadOnly
  simp only [applyArguments, hsettings]
  split
  · exact ⟨rfl, hds.append_right _⟩
  · split
    · exact ⟨rfl, hds.append_right _⟩
    · cases c.convertDefault? _ base.propertyType with
      | some e => exact ⟨rfl, (hds.append_right _).append_right _⟩
      | none => exact ⟨rfl, ((hds.append_right _).append_right _).append_right _⟩

end Arguments

namespace Compilation

variable {c d : Compilation} {t u : TypeDeclaration} {o o' : Occurrence}

theorem read_reordered (hconvert : c.convertDefault? = d.convertDefault?) (ht : t.bare = u.bare)
    (h : o.Reordered o') : (c.read t o).Alike (d.read u o') := by
  rw [← read_congr hconvert, ← c.read_bare t, ← c.read_bare u, ← ht]
  cases h with
  | onType h =>
    simp only [Occurrence.bare, read, readOnType, h.markedTypes?_eq, h.givenName?_eq, h.location_eq]
    split
    · exact .refl _
    · split
      · exact .refl _
      · split
        · exact Descriptor.applyArguments_perm _ _ h.perm h.nodup
        · exact .refl _
  | onProperty hp h =>
    simp only [Occurrence.bare, read, readOnProperty, hp, h.family?_eq, h.typeArguments_eq,
      h.location_eq]
    split
    · exact Descriptor.applyArguments_perm _ _ h.perm h.nodup
    · exact .refl _
  | onMethod hm h =>
    simp only [Occurrence.bare, read, readOnMethod, hm, h.family?_eq, h.typeArguments_eq,
      h.location_eq]
    split
    · split
      · exact Descriptor.applyArguments_perm _ _ h.perm h.nodup
      · exact .refl _
    · exact .refl _

end Compilation

namespace TypeDeclaration.Reordered

variable {t u : TypeDeclaration}

theorem places (h : t.Reordered u) : List.Forall₂ Occurrence.Reordered t.places u.places := by
  have hattributes : List.Forall₂ Occurrence.Reordered (t.attributes.map .onType)
      (u.attributes.map .onType) :=
    List.rel_map (fun _ _ hab => .onType hab) h.attributes
  have hproperties : List.Forall₂ Occurrence.Reordered
      (t.properties.flatMap fun p => p.attributes.map (.onProperty p))
      (u.properties.flatMap fun p => p.attributes.map (.onProperty p)) :=
    List.rel_flatMap h.properties fun _ _ hp =>
      List.rel_map (fun _ _ hab => .onProperty hp.bare_eq hab) hp.attributes
  have hmethods : List.Forall₂ Occurrence.Reordered
      (t.methods.flatMap fun m => m.attributes.map (.onMethod m))
      (u.methods.flatMap fun m => m.attributes.map (.onMethod m)) :=
    List.rel_flatMap h.methods fun _ _ hm =>
      List.rel_map (fun _ _ hab => .onMethod hm.bare_eq hab) hm.attributes
  exact List.rel_append (List.rel_append hattributes hproperties) hmethods

/-- What does not look at attributes is the same. -/
theorem congr {α : Type} {f : TypeDeclaration → α} (hf : ∀ t, f t.bare = f t) (h : t.Reordered u) :
    f t = f u := by
  rw [← hf, h.bare_eq, hf]

theorem hasAttribute_eq (h : t.Reordered u) (name : String) :
    t.hasAttribute name = u.hasAttribute name :=
  any_eq_of_forall₂ (fun _ _ ha => by rw [ha.simpleName_eq]) h.attributes

theorem enumFacts_eq (h : t.Reordered u) : t.enumFacts = u.enumFacts := by
  have hrest : (t.metadataName, t.kind, t.underlying, t.enumMembers) =
      (u.metadataName, u.kind, u.underlying, u.enumMembers) :=
    h.congr (f := fun t => (t.metadataName, t.kind, t.underlying, t.enumMembers)) fun _ => rfl
  simp only [Prod.mk.injEq] at hrest
  obtain ⟨hname, hkind, hunderlying, hmembers⟩ := hrest
  rw [enumFacts, enumFacts, hname, hkind, hunderlying, hmembers,
    h.hasAttribute_eq]

end TypeDeclaration.Reordered

theorem Compilation.Reordered.convertDefault?_eq {c d : Compilation} (h : c.Reordered d) :
    c.convertDefault? = d.convertDefault? := by
  apply convertDefault?_congr
  rw [List.map_append, List.map_append,
    map_eq_of_forall₂ (fun _ _ h => h.enumFacts_eq) h.externalTypes,
    map_eq_of_forall₂ (fun _ _ h => h.enumFacts_eq) h.types]

end Bindable
