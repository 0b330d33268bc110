import Bindable.Marker.Arguments
import Mathlib.Data.List.Induction
import Mathlib.Data.List.Nodup

/-! The arguments of a marker, taken together. Every setting is made by the arguments of one name,
in their order, and every argument is reported on by itself, so that the order of arguments with
different names is all the same. -/

namespace Bindable

@[simp]
theorem Diagnostic.report_id (id : DiagnosticId) (arguments : List String)
    (location : Option Location) : (report id arguments location).id = id :=
  rfl

/-- The values given under a name. -/
def valuesOf (key : String) (args : List NamedArgument) : List Constant :=
  (args.filter fun arg => arg.name = key).map (·.value)

section Values

variable {α : Type} {key : String} {args args' : List NamedArgument}

theorem foldl_valuesOf_cons (step : α → Constant → α) (a : α) (key : String) (arg : NamedArgument)
    (args : List NamedArgument) :
    (valuesOf key (arg :: args)).foldl step a =
      (valuesOf key args).foldl step (if arg.name = key then step a arg.value else a) := by
  by_cases h : arg.name = key <;> simp [valuesOf, h]

/-- Under a name that is given at most once the order of all arguments is all the same. -/
theorem valuesOf_perm (hperm : args.Perm args') (hnodup : (args.map (·.name)).Nodup)
    (key : String) : valuesOf key args = valuesOf key args' := by
  have hnames : ∀ name ∈ (args.filter fun arg => arg.name = key).map (·.name), name = key := by
    intro name hname
    obtain ⟨arg, harg, rfl⟩ := List.mem_map.mp hname
    simpa using (List.mem_filter.mp harg).2
  have hshort : ((args.filter fun arg => arg.name = key).map (·.name)).Nodup :=
    hnodup.sublist (List.filter_sublist.map _)
  rw [List.eq_replicate_of_mem hnames, List.nodup_replicate, List.length_map] at hshort
  have hfilter := hperm.filter fun arg => arg.name = key
  rw [valuesOf, valuesOf]
  generalize (args.filter fun arg => arg.name = key) = l at hshort hfilter ⊢
  cases l with
  | nil => rw [List.nil_perm.mp hfilter]
  | cons arg rest =>
    obtain rfl : rest = [] := List.length_eq_zero_iff.mp (by simpa using hshort)
    rw [List.singleton_perm.mp hfilter]

end Values

namespace Settings

variable {property : String} {location : Option Location}

/-- What one argument is reported for. -/
def complaints (property : String) (location : Option Location) (arg : NamedArgument) :
    List Diagnostic :=
  if arg.name = "DefaultMode" then
    if (arg.value.toInt?.bind BindingMode.ofNumber?).isSome then []
    else [invalidMode property location arg.value]
  else if arg.name = "Visibility" ∨ arg.name = "WriteVisibility" then
    if arg.value.visibility?.isSome then []
    else [invalidVisibility arg.name property location arg.value]
  else []

theorem id_of_mem_complaints {arg : NamedArgument} {r : Diagnostic}
    (h : r ∈ complaints property location arg) : r.id ∈ [.invalidDefaultMode, .invalidVisibility] := by
  rw [complaints] at h
  split at h
  · split at h
    · simp at h
    · simp [List.mem_singleton.mp h, invalidMode, Diagnostic.report]
  · split at h
    · split at h
      · simp at h
      · simp [List.mem_singleton.mp h, invalidVisibility, Diagnostic.report]
    · simp at h

theorem setMode_eq (s : Settings) (property : String) (location : Option Location) (v : Constant) :
    s.setMode property location v =
      { s with
        defaultMode := (v.toInt?.map DefaultMode.ofNumber).getD s.defaultMode
        diagnostics := s.diagnostics ++
          if (v.toInt?.bind BindingMode.ofNumber?).isSome then []
          else [invalidMode property location v] } := by
  cases hv : v.toInt? with
  | none => simp [setMode, hv, report]
  | some n => by_cases hn : (BindingMode.ofNumber? n).isSome <;> simp [setMode, hv, hn, report]

/-- One argument, setting by setting. -/
theorem apply_eq (s : Settings) (arg : NamedArgument) : apply property location s arg =
    { defaultMode := if arg.name = "DefaultMode" then
        (arg.value.toInt?.map DefaultMode.ofNumber).getD s.defaultMode else s.defaultMode
      getVisibility := if arg.name = "Visibility" then
        arg.value.visibility?.getD s.getVisibility else s.getVisibility
      setVisibility := if arg.name = "WriteVisibility" then
        arg.value.visibility?.or s.setVisibility else s.setVisibility
      isReadOnly := if arg.name = "IsReadOnly" then
        s.isReadOnly || arg.value.isTrue else s.isReadOnly
      hasFactory := if arg.name = "DefaultValueFactory" then arg.value.isTrue else s.hasFactory
      hasCoerce := if arg.name = "CoerceValueCallback" then arg.value.isTrue else s.hasCoerce
      hasValidate := if arg.name = "ValidateValueCallback" then arg.value.isTrue else s.hasValidate
      defaultValue := if arg.name = "DefaultValue" then some arg.value else s.defaultValue
      diagnostics := s.diagnostics ++ complaints property location arg } := by
  unfold apply complaints
  split
  next h => simp [h, setMode_eq]
  next h => cases hv : arg.value.visibility? <;> simp [h, hv, report]
  next h => cases hv : arg.value.visibility? <;> simp [h, hv, report]
  next h => simp [h]
  next h => simp [h]
  next h => simp [h]
  next h => simp [h]
  next h => simp [h]
  next h₁ h₂ h₃ h₄ h₅ h₆ h₇ h₈ =>
    simp only [if_neg h₁, if_neg h₂, if_neg h₃, if_neg h₄, if_neg h₅, if_neg h₆, if_neg h₇,
      if_neg h₈, if_neg (not_or.mpr ⟨h₂, h₃⟩), List.append_nil]

/-- All arguments, setting by setting. -/
theorem foldl_apply_eq (s : Settings) (args : List NamedArgument) :
    args.foldl (apply property location) s =
    { defaultMode := (valuesOf "DefaultMode" args).foldl
        (fun mode v => (v.toInt?.map DefaultMode.ofNumber).getD mode) s.defaultMode
      getVisibility := (valuesOf "Visibility" args).foldl
        (fun level v => v.visibility?.getD level) s.getVisibility
      setVisibility := (valuesOf "WriteVisibility" args).foldl
        (fun level v => v.visibility?.or level) s.setVisibility
      isReadOnly := (valuesOf "IsReadOnly" args).foldl (fun b v => b || v.isTrue) s.isReadOnly
      hasFactory := (valuesOf "DefaultValueFactory" args).foldl (fun _ v => v.isTrue) s.hasFactory
      hasCoerce := (valuesOf "CoerceValueCallback" args).foldl (fun _ v => v.isTrue) s.hasCoerce
      hasValidate :=
        (valuesOf "ValidateValueCallback" args).foldl (fun _ v => v.isTrue) s.hasValidate
      defaultValue := (valuesOf "DefaultValue" args).foldl (fun _ v => some v) s.defaultValue
      diagnostics := s.diagnostics ++ args.flatMap (complaints property location) } := by
  induction args generalizing s with
  | nil => simp [valuesOf]
  | cons arg args ih =>
    simp only [List.foldl_cons, ih, apply_eq, foldl_valuesOf_cons, List.flatMap_cons,
      List.append_assoc]

/-- The default that is made an expression: null beside a factory leaves it to the factory. -/
def usedDefault? (s : Settings) : Option Constant :=
  s.defaultValue.filter fun v => !(v.isNull && s.hasFactory)

/-- There is a factory beside the default. -/
def hasConflict (s : Settings) : Bool := s.usedDefault?.isSome && s.hasFactory

variable {s : Settings} {v : Constant}

theorem usedDefault?_eq_none_iff :
    s.usedDefault? = none ↔ ∀ v ∈ s.defaultValue, v.isNull ∧ s.hasFactory := by
  simp [usedDefault?, Option.filter_eq_none_iff]

theorem usedDefault?_eq_some_iff :
    s.usedDefault? = some v ↔ v ∈ s.defaultValue ∧ ¬ (v.isNull ∧ s.hasFactory) := by
  rw [usedDefault?, Option.filter_eq_some_iff, Bool.not_eq_true', ← Bool.not_eq_true,
    Bool.and_eq_true, Option.mem_def]

/-- The arguments are reported for their levels and modes only. -/
theorem id_of_mem_ofArguments {isReadOnly : Bool} {args : List NamedArgument} {r : Diagnostic}
    (h : r ∈ (ofArguments property location isReadOnly args).diagnostics) :
    r.id ∈ [.invalidDefaultMode, .invalidVisibility] := by
  rw [ofArguments, foldl_apply_eq] at h
  obtain ⟨arg, -, hr⟩ := List.mem_flatMap.mp (by simpa using h)
  exact id_of_mem_complaints hr

end Settings

section LastValue

variable {α : Type} {property : String} {location : Option Location} {isReadOnly : Bool}

theorem foldl_last_value (f : Constant → α) (a : α) (vs : List Constant) :
    vs.foldl (fun _ v => f v) a = (vs.getLast?.map f).getD a := by
  induction vs using List.reverseRecOn with
  | nil => rfl
  | append_singleton vs v _ => simp

theorem Attribute.named?_eq_getLast? (a : Attribute) (key : String) :
    a.named? key = (valuesOf key a.namedArguments).getLast? := by
  rw [named?, valuesOf, List.getLast?_map, List.getLast?_eq_head?_reverse, ← List.filter_reverse,
    List.head?_filter]

theorem Attribute.flag_eq_true_iff {a : Attribute} {key : String} :
    a.flag key = true ↔ a.named? key = some (.bool true) := by
  rw [flag]
  cases a.named? key with
  | none => simp
  | some v => cases v <;> simp [Constant.toBool?]

theorem Settings.hasFactory_ofArguments (a : Attribute) :
    (ofArguments property location isReadOnly a.namedArguments).hasFactory =
      a.flag "DefaultValueFactory" := by
  have hlast : (valuesOf "DefaultValueFactory" a.namedArguments).foldl (fun _ v => v.isTrue) false =
      ((a.named? "DefaultValueFactory").map (·.isTrue)).getD false := by
    rw [foldl_last_value, Attribute.named?_eq_getLast?]
  rw [ofArguments, foldl_apply_eq, Attribute.flag, hlast]
  cases a.named? "DefaultValueFactory" <;> rfl

theorem Settings.defaultValue_ofArguments (a : Attribute) :
    (ofArguments property location isReadOnly a.namedArguments).defaultValue =
      a.named? "DefaultValue" := by
  have hlast : (valuesOf "DefaultValue" a.namedArguments).foldl (fun _ v => some v) none =
      ((a.named? "DefaultValue").map some).getD none := by
    rw [foldl_last_value, Attribute.named?_eq_getLast?]
  rw [ofArguments, foldl_apply_eq, hlast]
  cases a.named? "DefaultValue" <;> rfl

end LastValue

namespace Descriptor

/-- The descriptor of an accepted marker: what its site gives, the settings and perhaps a default. -/
def withSettings (base : Descriptor) (s : Settings) (value : Option Expr) : Descriptor :=
  { base with
    defaultValue := value
    defaultMode := s.defaultMode
    getVisibility := s.getVisibility
    setVisibility := s.setVisibility
    isReadOnly := s.isReadOnly
    hasFactory := s.hasFactory
    hasCoerce := s.hasCoerce
    hasValidate := s.hasValidate }

variable {c : Compilation} {base d : Descriptor} {args : List NamedArgument}

/-- The reading of a marker by the default that its settings leave in use. -/
theorem applyArguments_eq (c : Compilation) (base : Descriptor) (args : List NamedArgument) :
    base.applyArguments c args =
      let s := Settings.ofArguments base.name base.location base.isReadOnly args
      let reports := s.diagnostics ++
        if s.setVisibility = some s.getVisibility then
          [.report .redundantWriteVisibility [base.name] base.location] else []
      match s.usedDefault? with
      | none => { descriptor := some (base.withSettings s base.defaultValue), diagnostics := reports }
      | some v =>
        { descriptor :=
            (c.convertDefault? v base.propertyType).map fun e => base.withSettings s (some e)
          diagnostics := reports ++
            (if s.hasFactory then
              [.report .defaultValueAndFactory [base.name] base.location] else []) ++
            if (c.convertDefault? v base.propertyType).isSome then []
            else [.report .defaultValueNotSupported
              [v.describe, base.propertyType.display, base.name] base.location] } := by
  rw [applyArguments]
  generalize Settings.ofArguments base.name base.location base.isReadOnly args = s
  simp only [Settings.usedDefault?]
  cases s.defaultValue with
  | none => rfl
  | some v =>
    cases hnull : v.isNull && s.hasFactory with
    | true =>
      simp only [if_true, Option.filter, hnull, Bool.not_true]
      rfl
    | false =>
      simp only [Option.filter, hnull, Bool.not_false]
      cases he : c.convertDefault? v base.propertyType with
      | some e => simp [he, withSettings]
      | none => simp [he]

theorem exists_of_applyArguments (h : (base.applyArguments c args).descriptor = some d) :
    ∃ s value, s = Settings.ofArguments base.name base.location base.isReadOnly args ∧
      d = base.withSettings s value ∧
      (value = base.defaultValue ∧ (∀ v ∈ s.defaultValue, v.isNull ∧ s.hasFactory) ∨
        ∃ v ∈ s.defaultValue, ¬ (v.isNull ∧ s.hasFactory) ∧
          ∃ e, c.convertDefault? v base.propertyType = some e ∧ value = some e) := by
  rw [applyArguments_eq] at h
  generalize Settings.ofArguments base.name base.location base.isReadOnly args = s at h ⊢
  cases hv : s.usedDefault? with
  | none =>
    simp only [hv, Option.some_inj] at h
    exact ⟨s, _, rfl, h.symm, .inl ⟨rfl, Settings.usedDefault?_eq_none_iff.mp hv⟩⟩
  | some v =>
    simp only [hv] at h
    obtain ⟨e, he, hd⟩ := Option.map_eq_some_iff.mp h
    obtain ⟨hgiven, hunused⟩ := Settings.usedDefault?_eq_some_iff.mp hv
    exact ⟨s, _, rfl, hd.symm, .inr ⟨v, hgiven, hunused, e, he, rfl⟩⟩

/-- After the reports on single arguments comes the one on the write level, then those on the
default. -/
theorem applyArguments_diagnostics (c : Compilation) (base : Descriptor)
    (args : List NamedArgument) : ∃ rest s,
      s = Settings.ofArguments base.name base.location base.isReadOnly args ∧
      (base.applyArguments c args).diagnostics = s.diagnostics ++
        (if s.setVisibility = some s.getVisibility then
          [.report .redundantWriteVisibility [base.name] base.location] else []) ++ rest ∧
      ∀ r ∈ rest, r.id ∈ [.defaultValueAndFactory, .defaultValueNotSupported] := by
  rw [applyArguments_eq]
  generalize Settings.ofArguments base.name base.location base.isReadOnly args = s
  cases hv : s.usedDefault? with
  | none =>
    simp only [hv]
    exact ⟨[], s, rfl, (List.append_nil _).symm, by simp⟩
  | some v =>
    simp only [hv]
    refine ⟨_, s, rfl, List.append_assoc _ _ _, fun r hr => ?_⟩
    obtain hr | hr := List.mem_append.mp hr
    · have hconflict := (List.mem_ite_nil_right.mp hr).2
      simp [List.mem_singleton.mp hconflict, Diagnostic.report]
    · have hunsupported := (List.mem_ite_nil_left.mp hr).2
      simp [List.mem_singleton.mp hunsupported, Diagnostic.report]

theorem id_of_mem_applyArguments {r : Diagnostic}
    (h : r ∈ (base.applyArguments c args).diagnostics) :
    r.id ∈ [.invalidDefaultMode, .invalidVisibility, .redundantWriteVisibility,
      .defaultValueAndFactory, .defaultValueNotSupported] := by
  obtain ⟨rest, s, hs, hdiagnostics, hrest⟩ := applyArguments_diagnostics c base args
  rw [hdiagnostics, List.mem_append, List.mem_append] at h
  obtain (h | h) | h := h
  · rw [hs] at h
    exact List.mem_append_left _ (Settings.id_of_mem_ofArguments h)
  · split at h
    · simp [List.mem_singleton.mp h, Diagnostic.report]
    · simp at h
  · have hid := hrest r h
    simp only [List.mem_cons, List.not_mem_nil, or_false] at hid
    simp [hid]

theorem countP_report {f : DiagnosticId → Bool} (p : Prop) [Decidable p] (id : DiagnosticId)
    (arguments : List String) (location : Option Location) :
    (if p then [Diagnostic.report id arguments location] else []).countP (fun r => f r.id) =
      if p ∧ f id then 1 else 0 := by
  by_cases hp : p <;> cases hf : f id <;> simp [hp, hf]

/-- Reports of other kinds than those on levels and modes are one on a default beside a factory, and
one on a default that cannot be used. -/
theorem countP_applyArguments {f : DiagnosticId → Bool}
    (hf : ∀ id ∈ [.invalidDefaultMode, .invalidVisibility, .redundantWriteVisibility], f id = false)
    (c : Compilation) (base : Descriptor) (args : List NamedArgument) :
    ((base.applyArguments c args).diagnostics.countP fun r => f r.id) =
      (if (Settings.ofArguments base.name base.location base.isReadOnly args).hasConflict ∧
          f .defaultValueAndFactory then 1 else 0) +
        if (base.applyArguments c args).descriptor = none ∧ f .defaultValueNotSupported then 1
        else 0 := by
  have hsettings : ((Settings.ofArguments base.name base.location base.isReadOnly
      args).diagnostics.countP fun r => f r.id) = 0 := by
    refine List.countP_eq_zero.mpr fun r hr => ?_
    have hid := Settings.id_of_mem_ofArguments hr
    obtain h | h : r.id = .invalidDefaultMode ∨ r.id = .invalidVisibility := by simpa using hid
    all_goals simp [h, hf]
  have hredundant : f .redundantWriteVisibility = false := hf _ (by simp)
  rw [applyArguments_eq]
  generalize Settings.ofArguments base.name base.location base.isReadOnly args = s at hsettings ⊢
  cases hv : s.usedDefault? with
  | none => simp [hv, hsettings, countP_report, hredundant, Settings.hasConflict]
  | some v =>
    cases he : c.convertDefault? v base.propertyType with
    | none =>
      cases hunsupported : f .defaultValueNotSupported <;>
        simp [hv, he, hsettings, countP_report, hredundant, hunsupported, Settings.hasConflict]
    | some e => simp [hv, he, hsettings, countP_report, hredundant, Settings.hasConflict]

end Descriptor

end Bindable
