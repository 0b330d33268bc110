import Bindable.Proofs.Emission.Gathering
import Bindable.Proofs.Marker.Settings
import Mathlib.Algebra.GroupWithZero.Nat

/-! Every marker of an accepted form is accounted for, by a descriptor or by a report of why there
is none, and a marker without a descriptor does not affect the others. -/

namespace Bindable

theorem Text.attachedName?_isSome_iff (getter : String) :
    (attachedName? getter).isSome ↔ ∃ name, isIdentifier name ∧ getter = "Get" ++ name := by
  have hget : ∀ rest, "Get".toList.isPrefixOf? getter.toList = some rest ↔
      getter = "Get" ++ String.ofList rest := by
    intro rest
    rw [List.isPrefixOf?_eq_some_iff_append_eq, eq_comm]
    simp [← String.toList_inj]
  rw [attachedName?]
  constructor
  · intro h
    split at h
    next rest hrest =>
      refine ⟨String.ofList rest, ?_, (hget rest).mp hrest⟩
      rw [isIdentifier, String.toList_ofList]
      by_contra hno
      simp [hno] at h
    next => simp at h
  · rintro ⟨name, hname, rfl⟩
    rw [(hget name.toList).mpr (by rw [String.ofList_toList]), isIdentifier] at *
    simp [hname]

/-- The forms of a marker that ask for a property. -/
def Occurrence.IsAccepted : Occurrence → Prop
  | onType a =>
    a.family? = some .onInstance ∧ a.typeArguments.length = 1 ∨
      a.family? = some .attached ∧ a.typeArguments.length = 2
  | onProperty p a =>
    a.family? = some .onInstance ∧ a.typeArguments = [] ∧ p.isStatic = false ∧ p.isIndexer = false
  | onMethod m a =>
    a.family? = some .attached ∧ a.typeArguments = [] ∧ m.isStatic = true ∧
      (∃ name, Text.isIdentifier name ∧ m.name = "Get" ++ name) ∧ m.returnType.isSome ∧
      m.parameters.length = 1

instance : DecidablePred Occurrence.IsAccepted
  | .onType _ => inferInstanceAs (Decidable (_ ∨ _))
  | .onProperty _ _ => inferInstanceAs (Decidable (_ ∧ _))
  | .onMethod m _ =>
    have := decidable_of_iff _ (Text.attachedName?_isSome_iff m.name)
    inferInstanceAs (Decidable (_ ∧ _ ∧ _ ∧ _ ∧ _ ∧ _))

theorem Occurrence.IsAccepted.family?_isSome {o : Occurrence} (h : o.IsAccepted) :
    o.family?.isSome := by
  cases o with
  | onType a =>
    obtain ⟨hf, -⟩ | ⟨hf, -⟩ := h <;> simp [Occurrence.family?, Occurrence.marker, hf]
  | onProperty p a => simp [Occurrence.family?, Occurrence.marker, h.1]
  | onMethod m a => simp [Occurrence.family?, Occurrence.marker, h.1]

/-- A marker on a type has to name its property. -/
def Occurrence.HasName : Occurrence → Prop
  | onType a => a.givenName?.any Text.isIdentifier = true
  | onProperty _ _ | onMethod _ _ => True

instance : DecidablePred Occurrence.HasName
  | .onType _ => inferInstanceAs (Decidable (_ = true))
  | .onProperty _ _ | .onMethod _ _ => inferInstanceAs (Decidable True)

/-- What a marker can come to. -/
inductive Occurrence.Gives (c : Compilation) (o : Occurrence) : Reading → Prop where
  | applied (haccepted : o.IsAccepted) (hname : o.HasName) (base : Descriptor)
      (hbase : base.defaultValue = none) :
      Gives c o (base.applyArguments c o.marker.namedArguments)
  | misnamed (haccepted : o.IsAccepted) (hname : ¬ o.HasName) (r : Diagnostic)
      (hr : r.id ∈ [.emptyPropertyName, .invalidPropertyName]) : Gives c o (.rejected r)
  | passedOver (h : ¬ o.IsAccepted) : Gives c o .nothing

namespace TypeDeclaration

def acceptedMarkers (t : TypeDeclaration) : Nat := t.places.countP fun o => o.IsAccepted

/-- The declaration with one attribute deleted. -/
inductive Without (t : TypeDeclaration) : Occurrence → TypeDeclaration → Prop where
  | onType {before after : List Attribute} {a : Attribute}
      (ha : t.attributes = before ++ a :: after) :
      Without t (.onType a) { t with attributes := before ++ after }
  | onProperty {ps qs : List Property} {p : Property} {before after : List Attribute}
      {a : Attribute} (hp : t.properties = ps ++ p :: qs)
      (ha : p.attributes = before ++ a :: after) :
      Without t (.onProperty p a)
        { t with properties := ps ++ { p with attributes := before ++ after } :: qs }
  | onMethod {ms ns : List Method} {m : Method} {before after : List Attribute}
      {a : Attribute} (hm : t.methods = ms ++ m :: ns)
      (ha : m.attributes = before ++ a :: after) :
      Without t (.onMethod m a)
        { t with methods := ms ++ { m with attributes := before ++ after } :: ns }

variable {t t' : TypeDeclaration} {o : Occurrence}

namespace Without

theorem kind_eq (h : t.Without o t') : t'.kind = t.kind := by
  cases h <;> rfl

theorem name_eq (h : t.Without o t') : t'.name = t.name := by
  cases h <;> rfl

theorem bare_eq (h : t.Without o t') : t'.bare = t.bare := by
  cases h with
  | onType _ => rfl
  | onProperty hp _ => simp [bare, hp, Property.bare]
  | onMethod hm _ => simp [bare, hm, Method.bare]

theorem places_map_bare (h : t.Without o t') :
    ∃ before after, t.places.map (·.bare) = before ++ o.bare :: after ∧
      t'.places.map (·.bare) = before ++ after := by
  let onProperty (p : Property) := p.attributes.map (Occurrence.onProperty p.bare)
  let onMethod (m : Method) := m.attributes.map (Occurrence.onMethod m.bare)
  have hbare : ∀ u : TypeDeclaration, u.places.map (·.bare) =
      u.attributes.map .onType ++ u.properties.flatMap onProperty ++
        u.methods.flatMap onMethod := by
    intro u
    simp only [places, List.map_append, List.map_flatMap, List.map_map, Function.comp_def,
      Occurrence.bare, onProperty, onMethod]
  rw [hbare, hbare]
  cases h with
  | @onType before after a ha =>
    refine ⟨before.map .onType,
      after.map .onType ++ t.properties.flatMap onProperty ++ t.methods.flatMap onMethod, ?_, ?_⟩
    · simp [ha, Occurrence.bare]
    · simp
  | @onProperty ps qs p before after a hp ha =>
    have hp' : onProperty { p with attributes := before ++ after } =
        before.map (.onProperty p.bare) ++ after.map (.onProperty p.bare) := List.map_append
    refine ⟨t.attributes.map .onType ++ ps.flatMap onProperty ++ before.map (.onProperty p.bare),
      after.map (.onProperty p.bare) ++ qs.flatMap onProperty ++ t.methods.flatMap onMethod, ?_, ?_⟩
    · have hown : onProperty p = before.map (.onProperty p.bare) ++
          .onProperty p.bare a :: after.map (.onProperty p.bare) := by
        simp [onProperty, ha]
      simp [hp, hown, Occurrence.bare]
    · simp [hp']
  | @onMethod ms ns m before after a hm ha =>
    have hm' : onMethod { m with attributes := before ++ after } =
        before.map (.onMethod m.bare) ++ after.map (.onMethod m.bare) := List.map_append
    refine ⟨t.attributes.map .onType ++ t.properties.flatMap onProperty ++ ms.flatMap onMethod ++
      before.map (.onMethod m.bare), after.map (.onMethod m.bare) ++ ns.flatMap onMethod, ?_, ?_⟩
    · have hown : onMethod m = before.map (.onMethod m.bare) ++
          .onMethod m.bare a :: after.map (.onMethod m.bare) := by
        simp [onMethod, ha]
      simp [hm, hown, Occurrence.bare]
    · simp [hm']

/-- A marker does not make an enum one of flags. -/
theorem enumFacts_eq (h : t.Without o t') (ho : o.family?.isSome) : t.enumFacts = t'.enumFacts := by
  cases h with
  | @onType before after a ha =>
    have hflags : a.simpleName ≠ "Flags" := by
      intro hname
      simp [Occurrence.family?, Occurrence.marker, Attribute.family?, hname] at ho
    have hany : t.hasAttribute "Flags" =
        ({ t with attributes := before ++ after } : TypeDeclaration).hasAttribute "Flags" := by
      simp [hasAttribute, ha, hflags]
    rw [enumFacts, hany]
    rfl
  | onProperty _ _ => rfl
  | onMethod _ _ => rfl

end Without

end TypeDeclaration

/-- The reports of a property that is asked for and not given. -/
def DiagnosticId.isLoss : DiagnosticId → Bool
  | emptyPropertyName | invalidPropertyName | defaultValueNotSupported | duplicatePropertyName =>
    true
  | _ => false

def losses (ds : List Diagnostic) : Nat := ds.countP fun d => d.id.isLoss

theorem losses_append (ds es : List Diagnostic) : losses (ds ++ es) = losses ds + losses es :=
  List.countP_append

def Reading.size (r : Reading) : Nat := r.descriptor.toList.length + losses r.diagnostics

def Gathered.size (g : Gathered) : Nat := g.descriptors.length + losses g.diagnostics

theorem Gathered.size_add (t : TypeDeclaration) (taken : List String) (g : Gathered) (r : Reading) :
    (add t taken g r).size = g.size + r.size := by
  rw [add]
  cases hd : r.descriptor with
  | none => simp [size, Reading.size, hd, losses_append, Nat.add_assoc]
  | some d =>
    by_cases hname : d.name ∈ taken ++ g.descriptors.map (·.name)
    · have hloss : losses [duplicateName t d] = 1 := rfl
      simp only [if_pos hname, size, Reading.size, hd, losses_append, hloss, Option.toList_some,
        List.length_singleton]
      omega
    · simp only [if_neg hname, size, Reading.size, hd, losses_append, Option.toList_some,
        List.length_append, List.length_singleton]
      omega

/-- What every marker adds to is a sum in the end. -/
theorem Gathered.measure_ofReadings {μ : Gathered → Nat} {ν : Reading → Nat} {t : TypeDeclaration}
    {taken : List String} (hnil : μ {} = 0) (hadd : ∀ g r, μ (add t taken g r) = μ g + ν r)
    (rs : List Reading) : μ (ofReadings t taken rs) = (rs.map ν).sum := by
  have hfold : ∀ g, μ (rs.foldl (add t taken) g) = μ g + (rs.map ν).sum := by
    induction rs with
    | nil => simp
    | cons r rs ih =>
      intro g
      rw [List.foldl_cons, ih, hadd, List.map_cons, List.sum_cons, Nat.add_assoc]
  rw [ofReadings, hfold, hnil, Nat.zero_add]

theorem Gathered.size_ofReadings (t : TypeDeclaration) (taken : List String) (rs : List Reading) :
    (ofReadings t taken rs).size = (rs.map (·.size)).sum :=
  measure_ofReadings rfl (size_add t taken) rs

/-- A marker of an accepted form and a proper name gives a descriptor or the report of its default,
whatever else its arguments are reported for. -/
theorem Descriptor.size_applyArguments (c : Compilation) (base : Descriptor)
    (args : List NamedArgument) : (base.applyArguments c args).size = 1 := by
  have hlosses : losses (base.applyArguments c args).diagnostics = _ :=
    countP_applyArguments (f := DiagnosticId.isLoss) (by decide) c base args
  rw [Reading.size, hlosses]
  cases (base.applyArguments c args).descriptor <;> simp [DiagnosticId.isLoss]

namespace Compilation

variable {c c' : Compilation} {t t' : TypeDeclaration} {o : Occurrence}

theorem gives_readOnType (c : Compilation) (t : TypeDeclaration) (a : Attribute) :
    (Occurrence.onType a).Gives c (c.readOnType t a) := by
  have haccepted : (Occurrence.onType a).IsAccepted ↔ a.markedTypes?.isSome := by
    rw [Occurrence.IsAccepted, Attribute.markedTypes?]
    split
    next h₁ h₂ => simp [h₁, h₂]
    next h₁ h₂ => simp [h₁, h₂]
    next h₁ h₂ =>
      have hone : ¬ (a.family? = some .onInstance ∧ a.typeArguments.length = 1) := by
        rintro ⟨hf, hl⟩
        obtain ⟨type, htype⟩ := List.length_eq_one_iff.mp hl
        exact h₁ type hf htype
      have htwo : ¬ (a.family? = some .attached ∧ a.typeArguments.length = 2) := by
        rintro ⟨hf, hl⟩
        obtain ⟨type, host, htypes⟩ := List.length_eq_two.mp hl
        exact h₂ type host hf htypes
      simp [hone, htwo]
  have hnamed : (Occurrence.onType a).HasName ↔ a.givenName?.any Text.isIdentifier = true := .rfl
  rw [readOnType]
  cases htypes : a.markedTypes? with
  | none => exact .passedOver (by simp [haccepted, htypes])
  | some types =>
    replace haccepted := haccepted.mpr (by simp [htypes])
    cases hname : a.givenName? with
    | none => exact .misnamed haccepted (by simp [hnamed, hname]) _ (by simp [Diagnostic.report])
    | some name =>
      by_cases hid : Text.isIdentifier name
      · simp only [if_pos hid]
        exact .applied haccepted (by simp [hnamed, hname, hid]) _ rfl
      · simp only [if_neg hid]
        exact .misnamed haccepted (by simp [hnamed, hname, hid]) _ (by simp [Diagnostic.report])

theorem gives_readOnProperty (c : Compilation) (t : TypeDeclaration) (p : Property)
    (a : Attribute) : (Occurrence.onProperty p a).Gives c (c.readOnProperty t p a) := by
  have haccepted : (Occurrence.onProperty p a).IsAccepted ↔
      a.family? = some .onInstance ∧ a.typeArguments = [] ∧ !p.isStatic ∧ !p.isIndexer := by
    simp [Occurrence.IsAccepted]
  rw [readOnProperty]
  split
  next h => exact .applied (haccepted.mpr h) trivial _ rfl
  next h => exact .passedOver (mt haccepted.mp h)

theorem gives_readOnMethod (c : Compilation) (t : TypeDeclaration) (m : Method) (a : Attribute) :
    (Occurrence.onMethod m a).Gives c (c.readOnMethod t m a) := by
  rw [readOnMethod]
  split
  next hmarker =>
    obtain ⟨hfamily, hargs, hstatic⟩ := hmarker
    split
    next hname htype hhost =>
      have haccepted : (Occurrence.onMethod m a).IsAccepted := by
        refine ⟨hfamily, hargs, hstatic, ?_, ?_, ?_⟩
        · exact (Text.attachedName?_isSome_iff _).mp (by rw [hname, Option.isSome_some])
        · rw [htype, Option.isSome_some]
        · rw [hhost, List.length_singleton]
      exact .applied haccepted trivial _ rfl
    next hno =>
      refine .passedOver ?_
      rintro ⟨-, -, -, hgetter, htype, hhost⟩
      obtain ⟨name, hname⟩ :=
        Option.isSome_iff_exists.mp ((Text.attachedName?_isSome_iff _).mpr hgetter)
      obtain ⟨type, htype⟩ := Option.isSome_iff_exists.mp htype
      obtain ⟨host, hhost⟩ := List.length_eq_one_iff.mp hhost
      exact hno name type host hname htype hhost
  next hmarker => exact .passedOver fun h => hmarker ⟨h.1, h.2.1, h.2.2.1⟩

theorem gives_read (c : Compilation) (t : TypeDeclaration) (o : Occurrence) :
    o.Gives c (c.read t o) := by
  cases o with
  | onType a => exact c.gives_readOnType t a
  | onProperty p a => exact c.gives_readOnProperty t p a
  | onMethod m a => exact c.gives_readOnMethod t m a

theorem size_read (c : Compilation) (t : TypeDeclaration) (o : Occurrence) :
    (c.read t o).size = if o.IsAccepted then 1 else 0 := by
  have hread := c.gives_read t o
  generalize c.read t o = r at hread ⊢
  cases hread with
  | applied haccepted _ base _ => rw [if_pos haccepted, Descriptor.size_applyArguments]
  | misnamed haccepted _ r hr =>
    have hloss : r.id.isLoss := by
      obtain h | h : r.id = .emptyPropertyName ∨ r.id = .invalidPropertyName := by simpa using hr
      all_goals
        rw [h]
        rfl
    rw [if_pos haccepted]
    simp [Reading.size, Reading.rejected, losses, hloss]
  | passedOver h =>
    rw [if_neg h]
    rfl

/-- The markers of both families, one by one. -/
theorem sum_readings (c : Compilation) (t : TypeDeclaration) {φ : Reading → Nat}
    {p : Occurrence → Prop} [DecidablePred p] (hnothing : φ .nothing = 0)
    (hread : ∀ o, φ (c.read t o) = if p o then 1 else 0) :
    ((c.readings t .onInstance).map φ).sum + ((c.readings t .attached).map φ).sum =
      t.places.countP fun o => p o := by
  rw [readings_eq, readings_eq, List.map_map, List.map_map]
  induction t.places with
  | nil => rfl
  | cons o os ih =>
    have ho := hread o
    rw [List.countP_cons, ← ih]
    cases hf : o.family? with
    | none =>
      have hpassed : c.read t o = .nothing := by
        have hgives := c.gives_read t o
        generalize c.read t o = r at hgives ⊢
        cases hgives with
        | applied haccepted | misnamed haccepted => simpa [hf] using haccepted.family?_isSome
        | passedOver _ => rfl
      have hno : ¬ p o := by
        intro hp
        rw [hpassed, hnothing, if_pos hp] at ho
        omega
      simp [hf, hno]
    | some f => cases f <;> simp [hf, ho] <;> omega

theorem size_entries (c : Compilation) (hkind : t.kind ≠ .enumType ∧ t.kind ≠ .interfaceType) :
    ((c.entries t).flatMap (·.descriptors)).length +
      losses ((c.entries t).flatMap (·.diagnostics)) = t.acceptedMarkers := by
  have hinstances : (c.gathered t .onInstance).size = _ := Gathered.size_ofReadings ..
  have hattached : (c.gathered t .attached).size = _ := Gathered.size_ofReadings ..
  rw [flatMap_entries hkind fun _ hd _ => hd, flatMap_entries hkind fun _ _ hr => hr,
    List.length_append, losses_append, TypeDeclaration.acceptedMarkers,
    ← c.sum_readings t rfl (c.size_read t), ← hinstances, ← hattached]
  simp only [entryOf, Gathered.size]
  omega

theorem readings_eq_bare (c : Compilation) (t : TypeDeclaration) (f : MarkerFamily) :
    c.readings t f =
      ((t.places.map (·.bare)).filter fun o => o.family? = some f).map (c.read t.bare) := by
  have hfamily : ∀ o : Occurrence, o.bare.family? = o.family? := by
    intro o
    cases o <;> rfl
  rw [readings_eq, List.filter_map, List.map_map]
  simp only [Function.comp_def, hfamily, read_bare]

/-- Deleting a marker deletes its reading. -/
theorem readings_of_without {f : MarkerFamily} (h : t.Without o t') (hf : o.family? = some f)
    (hconvert : c.convertDefault? = c'.convertDefault?) :
    (∃ before after, c.readings t f = before ++ c.read t o :: after ∧
      c'.readings t' f = before ++ after) ∧
    ∀ g, g ≠ f → c'.readings t' g = c.readings t g := by
  obtain ⟨before, after, hplaces, hplaces'⟩ := h.places_map_bare
  have hread : c'.read t'.bare = c.read t.bare := by
    funext o
    rw [h.bare_eq, read_congr hconvert]
  have hfamily : o.bare.family? = some f := by
    cases o <;> exact hf
  simp only [readings_eq_bare, hplaces, hplaces', hread, List.filter_append]
  constructor
  · rw [List.filter_cons_of_pos (by simpa using hfamily), List.map_append, List.map_append,
      List.map_cons, read_bare]
    exact ⟨_, _, rfl, rfl⟩
  · intro g hg
    rw [List.filter_cons_of_neg (by simpa [hfamily] using hg.symm)]

/-- The compilations are alike, except that the one may have `t'` where the other has `t`. -/
def Redeclares (c : Compilation) (t t' : TypeDeclaration) (c' : Compilation) : Prop :=
  c'.externalTypes = c.externalTypes ∧
    List.Forall₂ (fun u u' => u' = u ∨ u = t ∧ u' = t') c.types c'.types

theorem convertDefault?_of_without (h : t.Without o t') (ho : o.family?.isSome)
    (hc : c.Redeclares t t' c') : c.convertDefault? = c'.convertDefault? := by
  apply convertDefault?_congr
  obtain ⟨hexternal, htypes⟩ := hc
  have hfacts : ∀ {ts ts' : List TypeDeclaration},
      List.Forall₂ (fun u u' => u' = u ∨ u = t ∧ u' = t') ts ts' →
        ts.map (·.enumFacts) = ts'.map (·.enumFacts) := by
    intro ts ts' hts
    induction hts with
    | nil => rfl
    | cons hu hts ih =>
      obtain rfl | ⟨rfl, rfl⟩ := hu
      · rw [List.map_cons, List.map_cons, ih]
      · rw [List.map_cons, List.map_cons, ih, h.enumFacts_eq ho]
  rw [List.map_append, List.map_append, hexternal, hfacts htypes]

/-- For every marker of an accepted form there is one descriptor or one report that the property is
not given. A marker that gives no descriptor can be deleted, and nothing changes but that its own
reports are gone; other types may or may not see the type as it was. -/
theorem entries_account_for_markers (c : Compilation) (t : TypeDeclaration)
    (hkind : t.kind ∈ [.classType, .structType, .recordType]) :
    t.acceptedMarkers = ((c.entries t).flatMap (·.descriptors)).length +
      losses ((c.entries t).flatMap (·.diagnostics)) ∧
    ∀ (o : Occurrence) (f : MarkerFamily) (t' : TypeDeclaration) (c' : Compilation),
      o.family? = some f → t.Without o t' → c.Redeclares t t' c' →
      (c.read t o).descriptor = none →
      (∀ g, c'.descriptorsOf t' g = c.descriptorsOf t g) ∧
      (∃ first rest, c.diagnosticsOf t f = first ++ (c.read t o).diagnostics ++ rest ∧
        c'.diagnosticsOf t' f = first ++ rest) ∧
      ∀ g, g ≠ f → c'.diagnosticsOf t' g = c.diagnosticsOf t g := by
  have hkind : t.kind ≠ .enumType ∧ t.kind ≠ .interfaceType := by
    constructor <;> rintro h <;> simp [h] at hkind
  refine ⟨(c.size_entries hkind).symm, ?_⟩
  intro o f t' c' hf ht hc hnone
  have hkind' : t'.kind ≠ .enumType ∧ t'.kind ≠ .interfaceType := by
    rwa [ht.kind_eq]
  have hconvert := convertDefault?_of_without ht (by rw [hf, Option.isSome_some]) hc
  obtain ⟨⟨before, after, hreadings, hreadings'⟩, hothers⟩ := readings_of_without ht hf hconvert
  have hsame := Gathered.ofReadings_congr ht.name_eq
  simp only [descriptorsOf_eq hkind, descriptorsOf_eq hkind', diagnosticsOf_eq hkind,
    diagnosticsOf_eq hkind']
  -- the attached family sees no more of the other one than the names it has taken
  cases f with
  | onInstance =>
    obtain ⟨hdescriptors, first, rest, hfirst, hrest⟩ :=
      Gathered.ofReadings_delete t [] hnone
    have hinstances : (c'.gathered t' .onInstance).descriptors =
        (c.gathered t .onInstance).descriptors := by
      rw [gathered, gathered, hreadings, hreadings', hsame, hdescriptors]
    have hattached : c'.gathered t' .attached = c.gathered t .attached := by
      rw [gathered_attached, gathered_attached, hinstances, hothers .attached nofun, hsame]
    refine ⟨?_, ⟨first, rest, ?_, ?_⟩, ?_⟩
    · rintro (_ | _)
      · exact hinstances
      · rw [hattached]
    · rw [gathered, hreadings, hfirst]
    · rw [gathered, hreadings', hsame, hrest]
    · rintro (_ | _) hg
      · exact absurd rfl hg
      · rw [hattached]
  | attached =>
    obtain ⟨hdescriptors, first, rest, hfirst, hrest⟩ :=
      Gathered.ofReadings_delete t ((c.gathered t .onInstance).descriptors.map (·.name))
        hnone
    have hinstances : c'.gathered t' .onInstance = c.gathered t .onInstance := by
      rw [gathered, gathered, hothers .onInstance nofun, hsame]
    refine ⟨?_, ⟨first, rest, ?_, ?_⟩, ?_⟩
    · rintro (_ | _)
      · rw [hinstances]
      · rw [gathered_attached, gathered_attached, hinstances, hreadings, hreadings', hsame,
          hdescriptors]
    · rw [gathered_attached, hreadings, hfirst]
    · rw [gathered_attached, hinstances, hreadings', hsame, hrest]
    · rintro (_ | _) hg
      · rw [hinstances]
      · exact absurd rfl hg

def titleMarker : Attribute :=
  { name := "BindableProperty", arguments := [.string "Title"], namedArguments := []
    typeArguments := [{ name := "global::Demo.Text", primitive := none, isValueType := false,
                        nullable := false, isTypeParameter := false }]
    location := none }

def unnamedMarker : Attribute := { titleMarker with arguments := [] }

def titled (markers : List Attribute) : TypeDeclaration :=
  { namespaceName := some "Demo", name := "Label", kind := .classType, typeParameters := [],
    enclosing := [], isStatic := false, attributes := markers, properties := [], methods := [],
    underlying := none, enumMembers := [], location := none }

theorem entries_account_for_markers_unnamed :
    let t := titled [unnamedMarker, titleMarker]
    let t' := titled [titleMarker]
    let c : Compilation := { types := [t] }
    let c' : Compilation := { types := [t'] }
    ((c.entries t).flatMap (·.descriptors)).length +
      losses ((c.entries t).flatMap (·.diagnostics)) = 2 ∧
    (c'.descriptorsOf t' .onInstance).map (·.name) = ["Title"] ∧
    (∀ g, c'.descriptorsOf t' g = c.descriptorsOf t g) ∧
    ∃ first rest, c.diagnosticsOf t .onInstance =
        first ++ [.report .emptyPropertyName ["Label"] none] ++ rest ∧
      c'.diagnosticsOf t' .onInstance = first ++ rest := by
  intro t t' c c'
  obtain ⟨hcount, hdelete⟩ := entries_account_for_markers c t (by decide)
  have hwithout : t.Without (.onType unnamedMarker) t' :=
    @TypeDeclaration.Without.onType t [] [titleMarker] unnamedMarker rfl
  have hredeclares : c.Redeclares t t' c' := ⟨rfl, .cons (.inr ⟨rfl, rfl⟩) .nil⟩
  obtain ⟨hdescriptors, hdiagnostics, -⟩ :=
    hdelete (.onType unnamedMarker) .onInstance t' c' (by decide +kernel) hwithout hredeclares
      (by decide +kernel)
  have hread : (c.read t (.onType unnamedMarker)).diagnostics =
      [.report .emptyPropertyName ["Label"] none] := by
    decide +kernel
  rw [hread] at hdiagnostics
  exact ⟨hcount.symm.trans (by decide +kernel), by decide +kernel, hdescriptors, hdiagnostics⟩

end Compilation

end Bindable
