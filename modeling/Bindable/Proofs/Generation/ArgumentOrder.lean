import Bindable.Generation
import Bindable.Proofs.Emission.Gathering
import Bindable.Proofs.Marker.Reordering
import Mathlib.Data.Multiset.Basic

/-! The order of named arguments. A run gives the same sources whatever the order is, and the same
diagnostics up to their order. -/

namespace Bindable

/-- The same descriptors, and the same reports in some order. -/
structure Gathered.Alike (g h : Gathered) : Prop where
  descriptors : g.descriptors = h.descriptors
  diagnostics : g.diagnostics.Perm h.diagnostics

namespace Gathered

variable {t u : TypeDeclaration} {g h : Gathered} {r s : Reading} {rs ss : List Reading}

theorem Alike.add (hg : g.Alike h) (hr : r.Alike s) (t : TypeDeclaration) (taken : List String) :
    (add t taken g r).Alike (add t taken h s) := by
  simp only [Gathered.add, hr.descriptor, hg.descriptors]
  split
  · exact ⟨rfl, hg.diagnostics.append hr.diagnostics⟩
  · split
    · exact ⟨rfl, (hg.diagnostics.append hr.diagnostics).append_right _⟩
    · exact ⟨rfl, hg.diagnostics.append hr.diagnostics⟩

theorem Alike.ofReadings (hname : t.name = u.name) (hrs : List.Forall₂ Reading.Alike rs ss)
    (taken : List String) : (ofReadings t taken rs).Alike (ofReadings u taken ss) := by
  rw [ofReadings_congr hname, Gathered.ofReadings, Gathered.ofReadings]
  exact List.rel_foldl (fun _ _ hg _ _ hr => hg.add hr u taken) ⟨rfl, .refl _⟩ hrs

end Gathered

structure Entry.Alike (e f : Entry) : Prop where
  type : e.type.bare = f.type.bare
  family : e.family = f.family
  descriptors : e.descriptors = f.descriptors
  diagnostics : e.diagnostics.Perm f.diagnostics

theorem Entry.Alike.sourceFile?_eq {e f : Entry} (h : e.Alike f) (o : Options) :
    e.sourceFile? o = f.sourceFile? o := by
  have hbare : ∀ e : Entry, e.sourceFile? o =
      ({ e with type := e.type.bare, diagnostics := [] } : Entry).sourceFile? o := by
    intro e
    rfl
  rw [hbare, hbare f, h.type, h.family, h.descriptors]

namespace Compilation

variable {c d : Compilation} {t u : TypeDeclaration}

theorem readings_reordered (h : c.Reordered d) (ht : t.Reordered u) (f : MarkerFamily) :
    List.Forall₂ Reading.Alike (c.readings t f) (d.readings u f) := by
  rw [readings_eq, readings_eq]
  have hfamily : ∀ o o' : Occurrence, o.Reordered o' → o.family? = o'.family? := by
    intro o o' ho
    cases ho with
    | onType ho => exact ho.family?_eq
    | onProperty _ ho => exact ho.family?_eq
    | onMethod _ ho => exact ho.family?_eq
  refine List.rel_map (fun _ _ ho => read_reordered h.convertDefault?_eq ht.bare_eq ho)
    (filter_of_forall₂ ?_ ht.places)
  intro o o' ho
  rw [hfamily o o' ho]

theorem gathered_reordered (h : c.Reordered d) (ht : t.Reordered u) (f : MarkerFamily) :
    (c.gathered t f).Alike (d.gathered u f) := by
  have hname : t.name = u.name := ht.congr fun _ => rfl
  have hinstances : (c.gathered t .onInstance).Alike (d.gathered u .onInstance) :=
    .ofReadings hname (readings_reordered h ht .onInstance) []
  cases f with
  | onInstance => exact hinstances
  | attached =>
    rw [gathered_attached, gathered_attached, hinstances.descriptors]
    exact .ofReadings hname (readings_reordered h ht .attached) _

theorem entries_reordered (h : c.Reordered d) (ht : t.Reordered u) :
    List.Forall₂ Entry.Alike (c.entries t) (d.entries u) := by
  have hkind : t.kind = u.kind := ht.congr fun _ => rfl
  by_cases hmarked : t.kind = .enumType ∨ t.kind = .interfaceType
  · rw [entries, entries, if_pos hmarked, if_pos (hkind ▸ hmarked)]
    exact .nil
  · have hentry : ∀ f, (c.entryOf t f).Alike (d.entryOf u f) := by
      intro f
      have hg := gathered_reordered h ht f
      exact ⟨ht.bare_eq, rfl, hg.descriptors, hg.diagnostics⟩
    rw [entries_eq (not_or.mp hmarked), entries_eq (not_or.mp (hkind ▸ hmarked))]
    refine filter_of_forall₂ ?_ (.cons (hentry .onInstance) (.cons (hentry .attached) .nil))
    intro e f he
    rw [Entry.hasOutput, Entry.hasOutput, he.descriptors, he.diagnostics.isEmpty_eq]

theorem emit_reordered (h : c.Reordered d) (o : Options) :
    (c.emit o).sources = (d.emit o).sources ∧
      (c.emit o).diagnostics.Perm (d.emit o).diagnostics := by
  have hentries : List.Forall₂ Entry.Alike c.allEntries d.allEntries :=
    List.rel_flatMap h.types fun _ _ ht => entries_reordered h ht
  constructor
  · rw [emit, emit, filterMap_eq_of_forall₂ (fun _ _ he => he.sourceFile?_eq o) hentries]
  · exact flatMap_perm_of_forall₂ (fun _ _ he => he.diagnostics) hentries

end Compilation

namespace Analysis

variable {c d : Compilation} {t u : TypeDeclaration}

theorem propertyUsage_reordered {p q : Property} {a b : Attribute} (hp : p.bare = q.bare)
    (ha : a.Reordered b) : propertyUsage p a = propertyUsage q b := by
  have hbare : ∀ (p : Property) (a : Attribute), propertyUsage p a = propertyUsage p.bare a :=
    fun _ _ => rfl
  rw [hbare p, hbare q, hp, propertyUsage, propertyUsage, ha.family?_eq, ha.location_eq]

theorem methodUsage_reordered {m n : Method} {a b : Attribute} (h : t.bare = u.bare)
    (hm : m.bare = n.bare) (ha : a.Reordered b) : methodUsage t m a = methodUsage u n b := by
  have hbare : ∀ (t : TypeDeclaration) (m : Method),
      methodUsage t.bare m.bare a = methodUsage t m a := by
    intro t m
    have hsetter : ∀ name, (t.bare.attachedSetter? name).bind (·.body) =
        (t.attachedSetter? name).bind (·.body) := by
      intro name
      rw [TypeDeclaration.attachedSetter?_bare]
      cases t.attachedSetter? name <;> rfl
    simp only [methodUsage, hsetter]
    rfl
  rw [← hbare t, h, hm, hbare u, methodUsage, methodUsage, ha.family?_eq, ha.location_eq]

/-- The places that accessors are looked at for. -/
def usageAt (t : TypeDeclaration) : Occurrence → List Diagnostic
  | .onType _ => []
  | .onProperty p a => propertyUsage p a
  | .onMethod m a => methodUsage t m a

theorem usage_eq (t : TypeDeclaration) : usage t = t.places.flatMap (usageAt t) := by
  rw [usage]
  refine TypeDeclaration.walk_flatMap ?_ t
  rintro (_ | _ | _ | _ | _) <;>
    simp only [Visit.occurrence?, Option.map_some, Option.map_none, Option.getD_some,
      Option.getD_none, usageAt]

theorem usage_reordered (h : t.Reordered u) : usage t = usage u := by
  rw [usage_eq, usage_eq]
  refine flatMap_eq_of_forall₂ ?_ h.places
  intro o o' ho
  cases ho with
  | onType ha => rw [usageAt, usageAt]
  | onProperty hp ha => rw [usageAt, usageAt, propertyUsage_reordered hp ha]
  | onMethod hm ha => rw [usageAt, usageAt, methodUsage_reordered h.bare_eq hm ha]

theorem missingDefault_reordered {a b : Attribute} (h : a.Reordered b) :
    ∀ name type fallback,
      missingDefault name type a fallback = missingDefault name type b fallback := by
  intro name type fallback
  have hsupplies : suppliesDefault a = suppliesDefault b := by
    rw [suppliesDefault, suppliesDefault, h.named?_eq, h.flag_eq]
  rw [missingDefault, missingDefault, hsupplies, h.location_eq]

/-- The places that a default is looked for. -/
def defaultAt (t : TypeDeclaration) : Occurrence → List Diagnostic
  | .onType a => defaultValueAt t (.typeAttribute a)
  | .onProperty p a => defaultValueAt t (.propertyAttribute p a)
  | .onMethod m a => defaultValueAt t (.methodAttribute m a)

theorem defaultValue_eq (t : TypeDeclaration) :
    defaultValue t = t.places.flatMap (defaultAt t) := by
  rw [defaultValue]
  refine TypeDeclaration.walk_flatMap ?_ t
  rintro (_ | _ | _ | _ | _) <;>
    simp only [Visit.occurrence?, Option.map_some, Option.map_none, Option.getD_some,
      Option.getD_none, defaultAt] <;> rfl

theorem defaultAt_reordered {o o' : Occurrence} (h : t.Reordered u) (ho : o.Reordered o') :
    defaultAt t o = defaultAt u o' := by
  have hlocation : t.location = u.location := h.congr fun _ => rfl
  cases ho with
  | onType ha =>
    rw [defaultAt, defaultAt, defaultValueAt, defaultValueAt, ha.markedTypes?_eq, ha.givenName?_eq,
      hlocation]
    simp only [missingDefault_reordered ha]
  | @onProperty p q a b hp ha =>
    have hbare : ∀ t p, defaultValueAt t (.propertyAttribute p a) =
        defaultValueAt u (.propertyAttribute p.bare a) := fun _ _ => rfl
    rw [defaultAt, defaultAt, hbare t p, hp, ← hbare u q, defaultValueAt, defaultValueAt,
      ha.family?_eq]
    simp only [missingDefault_reordered ha]
  | @onMethod m n a b hm ha =>
    have hbare : ∀ t m, defaultValueAt t (.methodAttribute m a) =
        defaultValueAt u (.methodAttribute m.bare a) := fun _ _ => rfl
    rw [defaultAt, defaultAt, hbare t m, hm, ← hbare u n, defaultValueAt, defaultValueAt,
      ha.family?_eq]
    simp only [missingDefault_reordered ha]

theorem defaultValue_reordered (h : t.Reordered u) : defaultValue t = defaultValue u := by
  rw [defaultValue_eq, defaultValue_eq]
  exact flatMap_eq_of_forall₂ (fun _ _ ho => defaultAt_reordered h ho) h.places

theorem projectedProperties_reordered (h : t.Reordered u) :
    projectedProperties t = projectedProperties u := by
  rw [projectedProperties, projectedProperties]
  congr 1
  · refine filterMap_eq_of_forall₂ (fun _ _ ha => ha.givenName?_eq)
      (filter_of_forall₂ ?_ h.attributes)
    intro a b ha
    rw [ha.family?_eq, ha.flag_eq]
  · refine map_eq_of_forall₂ ?_ (filter_of_forall₂ ?_ h.properties)
    · intro p q hp
      calc p.name = p.bare.name := rfl
        _ = q.bare.name := by rw [hp.bare_eq]
        _ = q.name := rfl
    · intro p q hp
      refine any_eq_of_forall₂ ?_ hp.attributes
      intro a b ha
      rw [ha.simpleName_eq]

end Analysis

theorem Compilation.lookup?_reordered {c d : Compilation} (h : c.Reordered d) (r : TypeReference) :
    Option.Rel TypeDeclaration.Reordered (c.lookup? r) (d.lookup? r) := by
  rw [lookup?_eq, lookup?_eq]
  split
  · exact .none
  · refine find?_of_forall₂ ?_ (List.rel_reverse (List.rel_append h.externalTypes h.types))
    intro t u ht
    have hname : t.metadataName = u.metadataName := ht.congr fun _ => rfl
    rw [hname]

namespace Analysis

variable {c d : Compilation} {t u : TypeDeclaration}

theorem handlerAdvice_reordered {a b : Attribute} (h : c.Reordered d) (ht : t.Reordered u)
    (ha : a.Reordered b) : handlerAdvice c t a = handlerAdvice d u b := by
  rw [handlerAdvice, handlerAdvice, ha.typeArguments_eq]
  split
  next viewType _ =>
    have hview := Compilation.lookup?_reordered h viewType
    generalize c.lookup? viewType = view?, d.lookup? viewType = view?' at hview ⊢
    cases hview with
    | none => rfl
    | @some view view' hview =>
      have hadvice : platformAdvice t view = platformAdvice u view' := by
        have hnames : (t.name, t.qualifiedName) = (u.name, u.qualifiedName) :=
          ht.congr (f := fun t => (t.name, t.qualifiedName)) fun _ => rfl
        have hviews : (view.name, view.qualifiedName) = (view'.name, view'.qualifiedName) :=
          hview.congr (f := fun t => (t.name, t.qualifiedName)) fun _ => rfl
        simp only [Prod.mk.injEq] at hnames hviews
        funext properties location p
        rw [platformAdvice, platformAdvice, hnames.1, hnames.2, hviews.1, hviews.2]
      have hlocation : t.location = u.location := ht.congr fun _ => rfl
      simp only [projectedProperties_reordered hview, hadvice, h.referencedAssemblies,
        ha.location_eq, hlocation]
  next => rfl

theorem platform_reordered (h : c.Reordered d) (ht : t.Reordered u) :
    platform c t = platform d u := by
  refine flatMap_eq_of_forall₂ (fun _ _ ha => handlerAdvice_reordered h ht ha)
    (filter_of_forall₂ ?_ ht.attributes)
  intro a b ha
  rw [ha.simpleName_eq]

end Analysis

namespace Compilation

variable {c d : Compilation}

theorem analyze_reordered (h : c.Reordered d) (analyzers : List Analyzer) :
    c.analyze analyzers = d.analyze analyzers := by
  refine flatMap_eq_of_forall₂ ?_ h.types
  intro t u ht
  have hcheck : ∀ a : Analyzer, a.check c t = a.check d u := by
    rintro (_ | _ | _)
    · exact Analysis.usage_reordered ht
    · exact Analysis.defaultValue_reordered ht
    · exact Analysis.platform_reordered h ht
  simp only [hcheck]

end Compilation

/-- The output with its diagnostics in no order. -/
def Output.unordered (o : Output) : List SourceFile × Multiset Diagnostic :=
  (o.sources, o.diagnostics)

namespace Compilation

variable {c d : Compilation}

theorem generateWith_eq (c : Compilation) (o : Options) (cancelled : Bool) :
    c.generateWith o cancelled =
      if cancelled && !c.types.isEmpty then .error .cancelled
      else .ok { c.emit o with
        diagnostics := (c.emit o).diagnostics ++
          if o.runAnalyzers then c.analyze Analyzer.all else [] } := by
  rw [generateWith, runGenerator, runAnalyzers, unlessCancelled, unlessCancelled]
  cases cancelled && !c.types.isEmpty with
  | true => rfl
  | false =>
    cases o.runAnalyzers with
    | true => rfl
    | false =>
      simp only [Bool.false_eq_true, if_false, List.append_nil]
      rfl

theorem generateWith_reordered (h : c.Reordered d) (o : Options) (cancelled : Bool) :
    (c.generateWith o cancelled).map (·.unordered) =
      (d.generateWith o cancelled).map (·.unordered) := by
  have hempty : c.types.isEmpty = d.types.isEmpty := by
    rw [Bool.eq_iff_iff, List.isEmpty_iff, List.isEmpty_iff, ← List.length_eq_zero_iff,
      h.types.length_eq, List.length_eq_zero_iff]
  obtain ⟨hsources, hdiagnostics⟩ := emit_reordered h o
  rw [generateWith_eq, generateWith_eq, hempty, analyze_reordered h]
  split
  · rfl
  · have hall := hdiagnostics.append_right
      (if o.runAnalyzers then d.analyze Analyzer.all else [])
    rw [Except.map, Except.map, Output.unordered, Output.unordered, hsources,
      Multiset.coe_eq_coe.mpr hall]

def titleWith (arguments : List NamedArgument) : Compilation :=
  { types :=
      [{ namespaceName := some "Demo", name := "Label", kind := .classType, typeParameters := []
         enclosing := [], isStatic := false, properties := [], methods := []
         attributes :=
           [{ name := "BindableProperty", arguments := [.string "Title"]
              typeArguments := [{ name := "string", primitive := some .string, isValueType := false
                                  nullable := true, isTypeParameter := false }]
              namedArguments := arguments, location := none }]
         underlying := none, enumMembers := [], location := none }] }

/-- Both arguments are reported, in the order they come in. -/
theorem generateWith_reordered_twoReports :
    let mode : NamedArgument := { name := "DefaultMode", value := .string "sideways" }
    let level : NamedArgument := { name := "Visibility", value := .string "nobody" }
    ((titleWith [mode, level]).emit {}).diagnostics.map (·.id) =
      [.invalidDefaultMode, .invalidVisibility] ∧
    ((titleWith [level, mode]).emit {}).diagnostics.map (·.id) =
      [.invalidVisibility, .invalidDefaultMode] ∧
    ((titleWith [mode, level]).generateWith {} false).map (·.unordered) =
      ((titleWith [level, mode]).generateWith {} false).map (·.unordered) := by
  intro mode level
  refine ⟨by decide +kernel, by decide +kernel, generateWith_reordered ?_ {} false⟩
  exact
    { assemblyName := rfl
      referencedAssemblies := rfl
      options := rfl
      types := .cons
        { bare_eq := rfl
          attributes := .cons { bare_eq := rfl, perm := .swap _ _ _, nodup := by decide } .nil
          properties := .nil
          methods := .nil } .nil
      externalTypes := .nil }

end Compilation

end Bindable
