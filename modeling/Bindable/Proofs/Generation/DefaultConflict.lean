import Bindable.Proofs.Emission.Markers
import Bindable.Proofs.Emission.MemberNames
import Bindable.Proofs.Emission.Wiring
import Bindable.Proofs.Generation.ArgumentOrder

/-! A default beside a factory. It is reported once for every marker that asks for both, whatever
else is wrong with the marker, and then the default is used and the factory is not. -/

namespace Bindable

/-- The last default given is not null, and the last word on the factory is that there is one. -/
def Attribute.AsksForBoth (a : Attribute) : Prop :=
  a.named? "DefaultValue" ≠ none ∧ a.named? "DefaultValue" ≠ some .null ∧
    a.named? "DefaultValueFactory" = some (.bool true)

instance : DecidablePred Attribute.AsksForBoth :=
  fun _ => inferInstanceAs (Decidable (_ ∧ _ ∧ _))

def Occurrence.HasConflict (o : Occurrence) : Prop :=
  o.IsAccepted ∧ o.HasName ∧ o.marker.AsksForBoth

instance : DecidablePred Occurrence.HasConflict :=
  fun _ => inferInstanceAs (Decidable (_ ∧ _ ∧ _))

def conflicts (ds : List Diagnostic) : Nat := ds.countP fun d => d.id = .defaultValueAndFactory

theorem conflicts_append (ds es : List Diagnostic) :
    conflicts (ds ++ es) = conflicts ds + conflicts es :=
  List.countP_append

theorem conflicts_flatMap {α : Type} (f : α → List Diagnostic) (l : List α) :
    conflicts (l.flatMap f) = (l.map fun a => conflicts (f a)).sum :=
  List.countP_flatMap

theorem conflicts_eq_zero {ds : List Diagnostic} (h : ∀ d ∈ ds, d.id ≠ .defaultValueAndFactory) :
    conflicts ds = 0 :=
  List.countP_eq_zero.mpr fun d hd => by simpa using h d hd

theorem Attribute.asksForBoth_iff (a : Attribute) (property : String) (location : Option Location)
    (isReadOnly : Bool) :
    a.AsksForBoth ↔
      (Settings.ofArguments property location isReadOnly a.namedArguments).hasConflict := by
  rw [Settings.hasConflict, Settings.usedDefault?, Settings.hasFactory_ofArguments,
    Settings.defaultValue_ofArguments, AsksForBoth, ← flag_eq_true_iff, Bool.and_eq_true]
  cases a.named? "DefaultValue" with
  | none => simp
  | some v =>
    cases a.flag "DefaultValueFactory" with
    | false => simp
    | true => cases v <;> simp [Option.filter, Constant.isNull]

namespace Descriptor

variable {c : Compilation} {base d : Descriptor} {a : Attribute}

theorem conflicts_applyArguments (c : Compilation) (base : Descriptor) (a : Attribute) :
    conflicts (base.applyArguments c a.namedArguments).diagnostics =
      if a.AsksForBoth then 1 else 0 := by
  have hcount : conflicts (base.applyArguments c a.namedArguments).diagnostics = _ :=
    countP_applyArguments (f := fun id => id = .defaultValueAndFactory) (by decide) c base
      a.namedArguments
  rw [hcount]
  simp [a.asksForBoth_iff base.name base.location base.isReadOnly]

theorem default_of_asksForBoth (hconflict : a.AsksForBoth)
    (h : (base.applyArguments c a.namedArguments).descriptor = some d) :
    ∃ v e, a.named? "DefaultValue" = some v ∧ c.convertDefault? v d.propertyType = some e ∧
      d.defaultValue = some e := by
  obtain ⟨s, value, hs, rfl, hvalue⟩ := exists_of_applyArguments h
  have hgiven : s.defaultValue = a.named? "DefaultValue" := by
    rw [hs, Settings.defaultValue_ofArguments]
  rcases hvalue with ⟨-, hunused⟩ | ⟨v, hv, -, e, he, rfl⟩
  · obtain ⟨hsome, hnull, -⟩ := hconflict
    obtain ⟨v, hv⟩ := Option.ne_none_iff_exists'.mp hsome
    have hisNull := (hunused v (hgiven.trans hv)).1
    rw [hv] at hnull
    cases v <;> simp [Constant.isNull] at hisNull hnull
  · exact ⟨v, e, hgiven.symm.trans hv, he, rfl⟩

variable {o : Options} {m : Member}

theorem name_ne_of_defaultValue (h : d.defaultValue.isSome) (hm : m ∈ d.members o) :
    m.name ≠ MemberName.defaultValue d.name := by
  obtain ⟨r, hr, -, hname⟩ := exists_role_of_mem hm
  have hnoFactory : d.emitsFactory = false := by
    rw [emitsFactory, Option.isNone_eq_false_iff.mpr h, Bool.and_false]
  have hrole : r ≠ .defaultValue := by
    rintro rfl
    have hstub : .defaultValue ∉ d.stubRoles := by
      rw [stubRoles, hnoFactory]
      cases d.hasValidate <;> cases d.hasCoerce <;> decide
    have hfield : .defaultValue ∉ d.fieldRoles := by
      rw [fieldRoles]
      cases d.shape <;> decide
    have haccessor : .defaultValue ∉ d.accessorRoles := by
      rw [accessorRoles]
      cases d.site <;> cases d.host <;> simp
    simp [roles, hstub, hfield, haccessor] at hr
  rw [hname]
  exact fun h => hrole (MemberRole.name_left_injective d.name h)

end Descriptor

theorem Gathered.conflicts_ofReadings (t : TypeDeclaration) (taken : List String)
    (rs : List Reading) :
    conflicts (ofReadings t taken rs).diagnostics =
      (rs.map fun r => conflicts r.diagnostics).sum := by
  refine measure_ofReadings (μ := fun g => conflicts g.diagnostics) rfl (fun g r => ?_) rs
  -- a property that is dropped is reported in another way
  have hduplicates : ∀ ds : List Descriptor, conflicts (ds.map (duplicateName t)) = 0 := by
    intro ds
    refine conflicts_eq_zero fun r hr => ?_
    obtain ⟨d, -, rfl⟩ := List.mem_map.mp hr
    simp [duplicateName]
  rw [add_eq]
  simp only [conflicts_append, hduplicates, Nat.add_zero]

namespace Analysis

variable {c : Compilation} {t : TypeDeclaration} {r : Diagnostic}

theorem id_of_mem_propertyUsage {p : Property} {a : Attribute} (h : r ∈ propertyUsage p a) :
    r.id ∈ Analyzer.usage.supported := by
  rw [propertyUsage] at h
  cases hf : a.family? with
  | none => simp [hf] at h
  | some f =>
    cases f with
    | onInstance =>
      simp only [hf] at h
      split at h
      · simp [Analyzer.supported, List.mem_singleton.mp h]
      split at h
      · simp [Analyzer.supported, List.mem_singleton.mp h]
      · simp [Analyzer.supported, List.mem_singleton.mp (List.mem_ite_nil_left.mp h).2]
    | attached =>
      simp only [hf] at h
      obtain h | h := List.mem_append.mp h
      · simp [Analyzer.supported, List.mem_singleton.mp (List.mem_ite_nil_right.mp h).2]
      · simp [Analyzer.supported, List.mem_singleton.mp h]

theorem id_of_mem_methodUsage {m : Method} {a : Attribute} (h : r ∈ methodUsage t m a) :
    r.id = .attachedPropertyNotUsed := by
  rw [methodUsage] at h
  replace h := (List.mem_ite_nil_right.mp h).2
  split at h
  · cases h
  · rw [List.mem_singleton.mp (List.mem_ite_nil_left.mp h).2, Diagnostic.report_id]

theorem id_of_mem_missingDefault {name : String} {type : TypeReference} {a : Attribute}
    {fallback : Option Location} (h : r ∈ missingDefault name type a fallback) :
    r.id = .defaultValueNull := by
  rw [missingDefault] at h
  obtain ⟨-, h⟩ := List.mem_ite_nil_right.mp h
  rw [List.mem_singleton.mp h, Diagnostic.report_id]

theorem id_of_mem_defaultAt {o : Occurrence} (h : r ∈ defaultAt t o) :
    r.id = .defaultValueNull := by
  cases o with
  | onType a =>
    rw [defaultAt, defaultValueAt] at h
    split at h
    · exact id_of_mem_missingDefault h
    · cases h
  | onProperty p a =>
    rw [defaultAt, defaultValueAt] at h
    exact id_of_mem_missingDefault (List.mem_ite_nil_right.mp h).2
  | onMethod m a =>
    rw [defaultAt, defaultValueAt] at h
    replace h := (List.mem_ite_nil_right.mp h).2
    split at h
    · exact id_of_mem_missingDefault h
    · cases h

theorem id_of_mem_handlerAdvice {a : Attribute} (h : r ∈ handlerAdvice c t a) :
    r.id = .handlerAddPartialPlatformClass := by
  rw [handlerAdvice] at h
  split at h
  · split at h
    · obtain ⟨p, -, rfl⟩ := List.mem_map.mp (List.mem_ite_nil_left.mp h).2
      rfl
    · cases h
  · cases h

end Analysis

/-- No analyzer reports what it is not made for. -/
theorem Analyzer.id_mem_supported {c : Compilation} {t : TypeDeclaration} {a : Analyzer}
    {r : Diagnostic} (h : r ∈ a.check c t) : r.id ∈ a.supported := by
  cases a with
  | usage =>
    rw [check, Analysis.usage_eq] at h
    obtain ⟨o, -, hr⟩ := List.mem_flatMap.mp h
    cases o with
    | onType a => cases hr
    | onProperty p a => exact Analysis.id_of_mem_propertyUsage hr
    | onMethod m a => simp [supported, Analysis.id_of_mem_methodUsage hr]
  | defaultValue =>
    rw [check, Analysis.defaultValue_eq] at h
    obtain ⟨o, -, hr⟩ := List.mem_flatMap.mp h
    exact List.mem_singleton.mpr (Analysis.id_of_mem_defaultAt hr)
  | platform =>
    obtain ⟨a, -, hr⟩ := List.mem_flatMap.mp h
    exact List.mem_singleton.mpr (Analysis.id_of_mem_handlerAdvice hr)

namespace Compilation

variable {c : Compilation} {t : TypeDeclaration} {o : Occurrence} {d : Descriptor}

theorem conflicts_read (c : Compilation) (t : TypeDeclaration) (o : Occurrence) :
    conflicts (c.read t o).diagnostics = if o.HasConflict then 1 else 0 := by
  have hread := c.gives_read t o
  generalize c.read t o = r at hread ⊢
  cases hread with
  | applied haccepted hname base _ =>
    simp [Descriptor.conflicts_applyArguments, Occurrence.HasConflict, haccepted, hname]
  | misnamed _ hname r hr =>
    have hid : r.id ≠ .defaultValueAndFactory := by
      intro h
      simp [h] at hr
    have hnone : ¬ o.HasConflict := fun h => hname h.2.1
    rw [if_neg hnone]
    exact conflicts_eq_zero (by simpa [Reading.rejected] using hid)
  | passedOver haccepted =>
    have hnone : ¬ o.HasConflict := fun h => haccepted h.1
    rw [if_neg hnone]
    rfl

theorem conflicts_entries (hkind : t.kind ≠ .enumType ∧ t.kind ≠ .interfaceType) :
    conflicts ((c.entries t).flatMap (·.diagnostics)) = t.places.countP fun o => o.HasConflict := by
  have hinstances : conflicts (c.gathered t .onInstance).diagnostics = _ :=
    Gathered.conflicts_ofReadings ..
  have hattached : conflicts (c.gathered t .attached).diagnostics = _ :=
    Gathered.conflicts_ofReadings ..
  rw [flatMap_entries hkind fun _ _ hr => hr, conflicts_append,
    ← c.sum_readings t (φ := fun r => conflicts r.diagnostics) rfl (c.conflicts_read t),
    ← hinstances, ← hattached]
  rfl

/-- The types whose markers are read. -/
def markedTypes (c : Compilation) : List TypeDeclaration :=
  c.types.filter fun t => t.kind ∈ [.classType, .structType, .recordType]

theorem conflicts_emit (c : Compilation) (o : Options) :
    conflicts (c.emit o).diagnostics =
      (c.markedTypes.flatMap (·.places)).countP fun o => o.HasConflict := by
  rw [emit, allEntries, List.flatMap_assoc, conflicts_flatMap, List.countP_flatMap, markedTypes]
  induction c.types with
  | nil => rfl
  | cons t ts ih =>
    by_cases hkind : t.kind = .enumType ∨ t.kind = .interfaceType
    · have hentries : c.entries t = [] := by rw [entries, if_pos hkind]
      have hother : t.kind ∉ [TypeKind.classType, .structType, .recordType] := by
        obtain h | h := hkind <;> simp [h]
      rw [List.filter_cons_of_neg (by simpa using hother), List.map_cons, List.sum_cons, ih,
        hentries]
      exact Nat.zero_add _
    · have hown : t.kind ∈ [TypeKind.classType, .structType, .recordType] := by
        cases h : t.kind <;> simp [h] at hkind ⊢
      rw [List.filter_cons_of_pos (by simpa using hown), List.map_cons, List.map_cons,
        List.sum_cons, List.sum_cons, ih, conflicts_entries (not_or.mp hkind)]
      rfl

theorem conflicts_analyze (c : Compilation) (analyzers : List Analyzer) :
    conflicts (c.analyze analyzers) = 0 := by
  refine conflicts_eq_zero fun r hr => ?_
  obtain ⟨t, -, hr⟩ := List.mem_flatMap.mp hr
  obtain ⟨a, -, hr⟩ := List.mem_flatMap.mp hr
  have hid := Analyzer.id_mem_supported hr
  rintro h
  rw [h] at hid
  cases a <;> simp [Analyzer.supported] at hid

/-- With or without analyzers a run reports as many conflicts as there are markers that ask for both.
Of such a marker that is accepted the default is used, and no method is declared to make one. -/
theorem conflicts_reported_once (c : Compilation) (o : Options) :
    (∃ output, c.generateWith o false = .ok output) ∧
    (∀ cancelled output, c.generateWith o cancelled = .ok output →
      (output.diagnostics.countP fun d => d.id = .defaultValueAndFactory) =
        (c.markedTypes.flatMap (·.places)).countP fun m => m.HasConflict) ∧
    ∀ t ∈ c.markedTypes, ∀ m ∈ t.places, m.HasConflict →
      ∀ d, (c.read t m).descriptor = some d →
        (∀ member ∈ d.members o, member.name ≠ MemberName.defaultValue d.name) ∧
        ∃ v e call, m.marker.named? "DefaultValue" = some v ∧
          c.convertDefault? v d.propertyType = some e ∧
          (d.members o).filterMap (·.creation?) = [call] ∧
          call.argument? "defaultValueCreator" = some .null ∧
          call.argument? "defaultValue" = some e := by
  refine ⟨?_, ?_, ?_⟩
  · rw [generateWith_eq]
    exact ⟨_, rfl⟩
  · intro cancelled output houtput
    rw [generateWith_eq] at houtput
    split at houtput
    · cases houtput
    obtain rfl := Except.ok.inj houtput
    show conflicts (_ ++ _) = _
    rw [conflicts_append, conflicts_emit]
    cases o.runAnalyzers with
    | true =>
      -- no analyzer reports a conflict again
      rw [if_pos rfl, conflicts_analyze, Nat.add_zero]
    | false => rfl
  · intro t _ m _ hconflict d hread
    have hgives := c.gives_read t m
    generalize c.read t m = reading at hgives hread
    cases hgives with
    | applied _ _ base _ =>
      obtain ⟨v, e, hv, he, hdefault⟩ := Descriptor.default_of_asksForBoth hconflict.2.2 hread
      have hgiven : d.defaultValue.isSome := by rw [hdefault, Option.isSome_some]
      refine ⟨fun member hmember => Descriptor.name_ne_of_defaultValue hgiven hmember,
        v, e, d.createCall, hv, he, d.members_creation? o, ?_, ?_⟩
      · rw [Descriptor.argument?_defaultValueCreator, Descriptor.emitsFactory, hdefault,
          Option.isNone_some, Bool.and_false]
        rfl
      · rw [Descriptor.argument?_defaultValue, Descriptor.defaultExpr, hdefault]
    | misnamed | passedOver => cases hread

def bothAsked (name : String) (type : TypeReference) : Attribute :=
  { name := "BindableProperty", arguments := [.string name], typeArguments := [type]
    namedArguments := [⟨"DefaultValueFactory", .bool true⟩, ⟨"DefaultValue", .string "x"⟩]
    location := none }

/-- The second default is of another type than its property, and its factory is reported as well. -/
theorem conflicts_reported_once_unsupported :
    let text := bothAsked "Text" (.ofPrimitive .string)
    let t := titled [text, bothAsked "Flag" (.ofPrimitive .bool)]
    let c : Compilation := { types := [t] }
    (∃ output, c.generateWith {} false = .ok output ∧
      output.diagnostics.countP (fun d => d.id = .defaultValueAndFactory) = 2) ∧
    ∃ d, (c.read t (.onType text)).descriptor = some d ∧
      (∀ member ∈ d.members {}, member.name ≠ "CreateTextDefaultValue") ∧
      ∃ call, (d.members {}).filterMap (·.creation?) = [call] ∧
        call.argument? "defaultValueCreator" = some .null ∧
        call.argument? "defaultValue" = some (.literal (.string "x")) := by
  intro text t c
  obtain ⟨⟨output, houtput⟩, hcount, hmarkers⟩ := conflicts_reported_once c {}
  have htwo : ((c.markedTypes.flatMap (·.places)).countP fun m => m.HasConflict) = 2 := by
    decide +kernel
  refine ⟨⟨output, houtput, (hcount false output houtput).trans htwo⟩, ?_⟩
  have hread : (c.read t (.onType text)).descriptor.map (fun d => (d.name, d.propertyType)) =
      some ("Text", .ofPrimitive .string) := by
    decide +kernel
  have hconvert : c.convertDefault? (.string "x") (.ofPrimitive .string) =
      some (.literal (.string "x")) := by
    rfl
  have hlast : text.named? "DefaultValue" = some (.string "x") := by
    decide +kernel
  obtain ⟨d, hd, hname⟩ := Option.map_eq_some_iff.mp hread
  obtain ⟨hname, htype⟩ := Prod.mk.inj hname
  obtain ⟨hstub, v, e, call, hv, he, hcall, hcreator, hvalue⟩ :=
    hmarkers t (by decide +kernel) (.onType text) (by decide +kernel) (by decide +kernel) d hd
  obtain rfl : .string "x" = v := Option.some_inj.mp (hlast.symm.trans hv)
  rw [htype, hconvert, Option.some_inj] at he
  subst he
  rw [hname] at hstub
  exact ⟨d, hd, hstub, call, hcall, hcreator, hvalue⟩

end Compilation

end Bindable
