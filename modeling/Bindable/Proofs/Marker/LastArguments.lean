import Bindable.Proofs.Marker.Reading
import Bindable.Proofs.Marker.Settings

/-! What the arguments of an accepted marker come to. Of levels and modes the last one that can be
read counts, of flags the last one, and a single argument is enough to make a property read-only.
Arguments of other names have no effect. -/

namespace Bindable

/-- The last argument of a name whose value is read as anything is read as `x`; without such an
argument `x` is what there is at the start. -/
def IsLastOr {α : Type} (reads : Constant → α → Prop) (key : String) (args : List NamedArgument)
    (start x : α) : Prop :=
  (∃ before v after, args = before ++ ⟨key, v⟩ :: after ∧ reads v x ∧
    ∀ arg ∈ after, arg.name = key → ∀ y, ¬ reads arg.value y) ∨
  x = start ∧ ∀ arg ∈ args, arg.name = key → ∀ y, ¬ reads arg.value y

section Last

variable {α : Type} {reads : Constant → α → Prop} {read? : Constant → Option α}

theorem isLastOr_foldl (hreads : ∀ v x, reads v x ↔ read? v = some x) (key : String)
    (args : List NamedArgument) (start : α) :
    IsLastOr reads key args start
      ((valuesOf key args).foldl (fun x v => (read? v).getD x) start) := by
  induction args generalizing start with
  | nil => exact .inr ⟨rfl, by simp⟩
  | cons arg args ih =>
    obtain ⟨name, v⟩ := arg
    rw [foldl_valuesOf_cons]
    rcases ih (if name = key then (read? v).getD start else start) with
      ⟨before, w, after, rfl, hw, hafter⟩ | ⟨hstart, hnone⟩
    · exact .inl ⟨⟨name, v⟩ :: before, w, after, rfl, hw, hafter⟩
    rw [hstart]
    -- no argument after this one is read
    by_cases hname : name = key
    · subst hname
      rw [if_pos rfl]
      cases hv : read? v with
      | some x => exact .inl ⟨[], v, args, rfl, (hreads v x).mpr hv, hnone⟩
      | none =>
        refine .inr ⟨rfl, List.forall_mem_cons.mpr ⟨fun _ y hy => ?_, hnone⟩⟩
        rw [hreads, hv] at hy
        contradiction
    · rw [if_neg hname]
      exact .inr ⟨rfl, List.forall_mem_cons.mpr ⟨fun h => absurd h hname, hnone⟩⟩

end Last

theorem Constant.visibility?_eq_some_iff {v : Constant} {level : Visibility} :
    v.visibility? = some level ↔ v.toInt? = some level.flags := by
  have hflags : ∀ n, Visibility.ofFlags? n = some level ↔ n = level.flags := by
    intro n
    constructor
    · intro h
      simpa [eq_comm] using List.find?_some h
    · rintro rfl
      cases level <;> rfl
  cases hv : v.toInt? with
  | none => simp [visibility?, hv]
  | some n => simp [visibility?, hv, hflags]

theorem Constant.isTrue_iff {v : Constant} : v.isTrue = true ↔ v = .bool true := by
  cases v with
  | bool b => cases b <;> simp [isTrue, toBool?]
  | _ => simp [isTrue, toBool?]

theorem BindingMode.ofNumber?_isSome_iff {n : Int} :
    (ofNumber? n).isSome ↔ 0 ≤ n ∧ n ≤ 4 := by
  constructor
  · intro h
    obtain ⟨mode, hmode⟩ := Option.isSome_iff_exists.mp h
    obtain rfl : mode.number = n := by simpa using List.find?_some hmode
    cases mode <;> simp [number]
  · rintro ⟨hlow, hhigh⟩
    obtain rfl | rfl | rfl | rfl | rfl : n = 0 ∨ n = 1 ∨ n = 2 ∨ n = 3 ∨ n = 4 := by omega
    all_goals rfl

/-- The numbers from 0 to 4 have names, and only they. -/
def DefaultMode.StandsFor : DefaultMode → Int → Prop
  | .known mode, n => mode.number = n
  | .raw k, n => k = n ∧ (n < 0 ∨ 4 < n)

theorem DefaultMode.standsFor_iff {mode : DefaultMode} {n : Int} :
    mode.StandsFor n ↔ ofNumber n = mode := by
  have hknown : ∀ known : BindingMode, ofNumber known.number = .known known := by
    intro known
    cases known <;> rfl
  have hraw : ∀ k, k < 0 ∨ 4 < k → ofNumber k = .raw k := by
    intro k hk
    have hnone : BindingMode.ofNumber? k = none := by
      rw [← Option.not_isSome_iff_eq_none, BindingMode.ofNumber?_isSome_iff]
      omega
    rw [ofNumber, hnone]
  constructor
  · intro h
    cases mode with
    | known known => exact h ▸ hknown known
    | raw k =>
      obtain ⟨rfl, hk⟩ := h
      exact hraw k hk
  · intro h
    subst h
    by_cases hn : 0 ≤ n ∧ n ≤ 4
    · obtain rfl | rfl | rfl | rfl | rfl : n = 0 ∨ n = 1 ∨ n = 2 ∨ n = 3 ∨ n = 4 := by omega
      all_goals rfl
    · have hout : n < 0 ∨ 4 < n := by omega
      rw [hraw n hout]
      exact ⟨rfl, hout⟩

namespace NamedArgument

/-- A mode that is none of the named ones, or a level that is none of the six. -/
def Offends (arg : NamedArgument) : Prop :=
  arg.name = "DefaultMode" ∧ (∀ n ∈ arg.value.toInt?, n < 0 ∨ 4 < n) ∨
    (arg.name = "Visibility" ∨ arg.name = "WriteVisibility") ∧
      ∀ level ∈ Visibility.all, arg.value.toInt? ≠ some level.flags

instance : DecidablePred Offends := fun _ => inferInstanceAs (Decidable (_ ∧ _ ∨ _ ∧ _))

def offence (property : String) (location : Option Location) (arg : NamedArgument) : Diagnostic :=
  if arg.name = "DefaultMode" then invalidMode property location arg.value
  else invalidVisibility arg.name property location arg.value

end NamedArgument

namespace Settings

variable {property : String} {location : Option Location}

theorem complaints_eq (property : String) (location : Option Location) (arg : NamedArgument) :
    complaints property location arg =
      if arg.Offends then [arg.offence property location] else [] := by
  have hmode : (arg.value.toInt?.bind BindingMode.ofNumber?).isSome ↔
      ¬ ∀ n ∈ arg.value.toInt?, n < 0 ∨ 4 < n := by
    cases arg.value.toInt? with
    | none => simp
    | some n =>
      rw [Option.bind_some, BindingMode.ofNumber?_isSome_iff]
      simp only [Option.mem_def, Option.some.injEq, forall_eq']
      omega
  have hlevel : arg.value.visibility?.isSome ↔
      ¬ ∀ level ∈ Visibility.all, arg.value.toInt? ≠ some level.flags := by
    have hall : ∀ level : Visibility, level ∈ Visibility.all := by
      intro level
      cases level <;> simp [Visibility.all]
    rw [Option.isSome_iff_exists]
    simp [Constant.visibility?_eq_some_iff, hall]
  rw [complaints, NamedArgument.offence]
  by_cases hname : arg.name = "DefaultMode"
  · have hoffends : arg.Offends ↔ ∀ n ∈ arg.value.toInt?, n < 0 ∨ 4 < n := by
      simp [NamedArgument.Offends, hname]
    rw [if_pos hname, if_pos hname]
    simp only [hoffends, hmode, ite_not]
  rw [if_neg hname, if_neg hname]
  by_cases hlevels : arg.name = "Visibility" ∨ arg.name = "WriteVisibility"
  · have hoffends : arg.Offends ↔
        ∀ level ∈ Visibility.all, arg.value.toInt? ≠ some level.flags := by
      simp [NamedArgument.Offends, hname, hlevels]
    rw [if_pos hlevels]
    simp only [hoffends, hlevel, ite_not]
  · have hoffends : ¬ arg.Offends := by
      simp [NamedArgument.Offends, hname, hlevels]
    rw [if_neg hlevels, if_neg hoffends]

theorem flatMap_complaints (property : String) (location : Option Location)
    (args : List NamedArgument) :
    args.flatMap (complaints property location) =
      (args.filter (·.Offends)).map (·.offence property location) := by
  induction args with
  | nil => rfl
  | cons arg args ih =>
    rw [List.flatMap_cons, ih, complaints_eq, List.filter_cons]
    by_cases h : arg.Offends <;> simp [h]

/-- The names under which arguments are read. -/
def argumentNames : List String :=
  ["DefaultMode", "Visibility", "WriteVisibility", "DefaultValue", "DefaultValueFactory",
    "CoerceValueCallback", "ValidateValueCallback", "IsReadOnly"]

theorem apply_of_notMem {arg : NamedArgument} (h : arg.name ∉ argumentNames) (s : Settings) :
    apply property location s arg = s := by
  simp only [argumentNames, List.mem_cons, List.not_mem_nil, or_false, not_or] at h
  rw [apply_eq]
  simp [complaints, h]

theorem ofArguments_filter (property : String) (location : Option Location) (isReadOnly : Bool)
    (args : List NamedArgument) :
    ofArguments property location isReadOnly (args.filter fun arg => arg.name ∈ argumentNames) =
      ofArguments property location isReadOnly args := by
  have hstep : (fun s arg => if decide (arg.name ∈ argumentNames) = true then
      apply property location s arg else s) = apply property location := by
    funext s arg
    by_cases harg : arg.name ∈ argumentNames
    · simp [harg]
    · simp [harg, apply_of_notMem harg]
  rw [ofArguments, ofArguments, List.foldl_filter, hstep]

end Settings

namespace Descriptor

/-- The settings of a property are those that the arguments of its marker ask for. -/
structure Follows (d : Descriptor) (args : List NamedArgument) (isReadOnly : Bool) : Prop where
  getVisibility : IsLastOr (fun v level => v.toInt? = some level.flags) "Visibility" args
    .publicAccess d.getVisibility
  setVisibility : IsLastOr (fun v write => ∃ level, write = some level ∧
    v.toInt? = some (Visibility.flags level)) "WriteVisibility" args none d.setVisibility
  defaultMode : IsLastOr (fun v mode => ∃ n, v.toInt? = some n ∧ mode.StandsFor n) "DefaultMode"
    args (.known .oneWay) d.defaultMode
  hasFactory : IsLastOr (fun v b => b = true ↔ v = .bool true) "DefaultValueFactory" args false
    d.hasFactory
  hasCoerce : IsLastOr (fun v b => b = true ↔ v = .bool true) "CoerceValueCallback" args false
    d.hasCoerce
  hasValidate : IsLastOr (fun v b => b = true ↔ v = .bool true) "ValidateValueCallback" args false
    d.hasValidate
  isReadOnly_iff : d.isReadOnly = true ↔ isReadOnly = true ∨ ⟨"IsReadOnly", .bool true⟩ ∈ args

variable {c : Compilation} {base d : Descriptor} {args : List NamedArgument}

theorem isLastOr_flag (key : String) (args : List NamedArgument) :
    IsLastOr (fun v b => b = true ↔ v = .bool true) key args false
      ((valuesOf key args).foldl (fun _ v => v.isTrue) false) := by
  have hreads : ∀ v (b : Bool), (b = true ↔ v = .bool true) ↔ some (Constant.isTrue v) = some b := by
    intro v b
    rw [← Constant.isTrue_iff, Option.some_inj]
    cases b <;> cases v.isTrue <;> simp
  exact isLastOr_foldl hreads key args false

theorem foldl_or_isTrue (key : String) (args : List NamedArgument) (b : Bool) :
    (valuesOf key args).foldl (fun b v => b || v.isTrue) b = true ↔
      b = true ∨ ⟨key, .bool true⟩ ∈ args := by
  induction args generalizing b with
  | nil => simp [valuesOf]
  | cons arg args ih =>
    rw [foldl_valuesOf_cons, ih, List.mem_cons, eq_comm (a := NamedArgument.mk _ _)]
    obtain ⟨name, v⟩ := arg
    by_cases hname : name = key
    · simp [hname, Constant.isTrue_iff, or_assoc]
    · simp [hname]

theorem follows_withSettings {s : Settings} (value : Option Expr)
    (hs : s = Settings.ofArguments base.name base.location base.isReadOnly args) :
    (base.withSettings s value).Follows args base.isReadOnly := by
  rw [Settings.ofArguments, Settings.foldl_apply_eq] at hs
  subst hs
  constructor
  case getVisibility =>
    exact isLastOr_foldl (fun v level => (Constant.visibility?_eq_some_iff (v := v)).symm) _ args _
  case setVisibility =>
    -- the level before is kept when the next one cannot be read, as with the other settings
    have hwrite : (fun (write : Option Visibility) (v : Constant) => v.visibility?.or write) =
        fun write v => (v.visibility?.map some).getD write := by
      funext write v
      cases v.visibility? <;> rfl
    show IsLastOr _ _ args none ((valuesOf _ args).foldl _ none)
    rw [hwrite]
    refine isLastOr_foldl (fun v write => ?_) _ args none
    simp only [Option.map_eq_some_iff, Constant.visibility?_eq_some_iff]
    exact exists_congr fun level => ⟨fun h => ⟨h.2, h.1.symm⟩, fun h => ⟨h.2.symm, h.1⟩⟩
  case defaultMode =>
    refine isLastOr_foldl (fun v mode => ?_) _ args _
    simp only [Option.map_eq_some_iff, DefaultMode.standsFor_iff]
  case hasFactory => exact isLastOr_flag _ args
  case hasCoerce => exact isLastOr_flag _ args
  case hasValidate => exact isLastOr_flag _ args
  case isReadOnly_iff => exact foldl_or_isTrue _ args base.isReadOnly

/-- All that is reported of a marker that is accepted. -/
theorem diagnostics_of_descriptor (hbase : base.defaultValue = none)
    (h : (base.applyArguments c args).descriptor = some d) :
    (base.applyArguments c args).diagnostics =
      (args.filter (·.Offends)).map (·.offence d.name d.location) ++
        (if d.setVisibility = some d.getVisibility then
          [.report .redundantWriteVisibility [d.name] d.location] else []) ++
        if d.hasFactory ∧ d.defaultValue.isSome then
          [.report .defaultValueAndFactory [d.name] d.location] else [] := by
  have hsite : d.name = base.name ∧ d.location = base.location := by
    obtain ⟨s, value, -, rfl, -⟩ := exists_of_applyArguments h
    exact ⟨rfl, rfl⟩
  have hcomplaints : (Settings.ofArguments base.name base.location base.isReadOnly args).diagnostics =
      (args.filter (·.Offends)).map (·.offence d.name d.location) := by
    rw [Settings.ofArguments, Settings.foldl_apply_eq, ← Settings.flatMap_complaints, hsite.1,
      hsite.2]
    rfl
  rw [applyArguments_eq] at h ⊢
  rw [← hcomplaints]
  generalize Settings.ofArguments base.name base.location base.isReadOnly args = s at h ⊢
  cases hv : s.usedDefault? with
  | none =>
    simp only [hv, Option.some_inj] at h ⊢
    subst h
    simp [withSettings, hbase]
  | some v =>
    simp only [hv] at h ⊢
    obtain ⟨e, he, rfl⟩ := Option.map_eq_some_iff.mp h
    show _ = _ ++ (if s.setVisibility = some s.getVisibility then _ else _) ++
      if s.hasFactory ∧ (some e).isSome then _ else _
    simp [he, withSettings]

theorem applyArguments_filter (c : Compilation) (base : Descriptor) (args : List NamedArgument) :
    base.applyArguments c (args.filter fun arg => arg.name ∈ Settings.argumentNames) =
      base.applyArguments c args := by
  rw [applyArguments, applyArguments, Settings.ofArguments_filter]

end Descriptor

namespace Compilation

variable {c : Compilation} {t : TypeDeclaration} {o : Occurrence} {d : Descriptor}

/-- Every setting of an accepted marker follows its arguments, each argument that cannot be read is
reported once, and arguments of other names could be there or not. -/
theorem read_follows_arguments (h : (c.read t o).descriptor = some d) :
    d.Follows o.marker.namedArguments (t.isReadOnlyAt o) ∧
    (c.read t o).diagnostics =
      (o.marker.namedArguments.filter (·.Offends)).map (·.offence d.name d.location) ++
        (if d.setVisibility = some d.getVisibility then
          [.report .redundantWriteVisibility [d.name] d.location] else []) ++
        (if d.hasFactory ∧ d.defaultValue.isSome then
          [.report .defaultValueAndFactory [d.name] d.location] else []) ∧
    ∀ args : List NamedArgument,
      args.filter (fun arg => arg.name ∈ Settings.argumentNames) =
        o.marker.namedArguments.filter (fun arg => arg.name ∈ Settings.argumentNames) →
      c.read t (o.withArguments args) = c.read t o := by
  obtain ⟨base, hbase, -⟩ := exists_base_of_read h
  rw [hbase.read_eq] at h
  refine ⟨?_, ?_, fun args hargs => ?_⟩
  · obtain ⟨s, value, hs, rfl, -⟩ := Descriptor.exists_of_applyArguments h
    exact hbase.isReadOnly ▸ Descriptor.follows_withSettings value hs
  · rw [hbase.read_eq, Descriptor.diagnostics_of_descriptor hbase.defaultValue h]
  · rw [hbase.read_withArguments, hbase.read_eq, ← Descriptor.applyArguments_filter, hargs,
      Descriptor.applyArguments_filter]

/-- Levels, modes and flags that are given twice, some of them as something else. -/
def repeatedArguments : List NamedArgument :=
  [⟨"Visibility", .enumeration "Visibility" 4⟩, ⟨"Visibility", .string "x"⟩,
    ⟨"WriteVisibility", .enumeration "Visibility" 4⟩, ⟨"DefaultMode", .char '\t'⟩,
    ⟨"DefaultMode", .null⟩, ⟨"IsReadOnly", .bool true⟩, ⟨"IsReadOnly", .bool false⟩,
    ⟨"DefaultValueFactory", .bool true⟩, ⟨"DefaultValueFactory", .string "yes"⟩]

theorem read_follows_arguments_repeated :
    let c : Compilation := {}
    let t : TypeDeclaration := default
    let o : Occurrence := .onType
      { name := "BindableProperty", arguments := [.string "Text"],
        typeArguments := [.ofPrimitive .string], namedArguments := repeatedArguments,
        location := none }
    ∃ d, (c.read t o).descriptor = some d ∧ d.Follows repeatedArguments false ∧
      d.getVisibility = .internalAccess ∧ d.defaultMode = .raw 9 ∧ d.hasFactory = false ∧
      d.isReadOnly = true ∧
      (c.read t o).diagnostics =
        [invalidVisibility "Visibility" "Text" none (.string "x"),
          invalidMode "Text" none (.char '\t'), invalidMode "Text" none .null,
          .report .redundantWriteVisibility ["Text"] none] ∧
      c.read t (o.withArguments (⟨"ProjectToPlatform", .bool true⟩ :: repeatedArguments)) =
        c.read t o := by
  intro c t o
  have hsite : (c.read t o).descriptor.map (fun d => (d.name, d.location)) =
      some ("Text", none) := by
    decide +kernel
  have hsettings : (c.read t o).descriptor.map (fun d =>
      (d.getVisibility, d.setVisibility, d.defaultMode, d.hasFactory, d.isReadOnly)) =
        some (.internalAccess, some .internalAccess, .raw 9, false, true) := by
    decide +kernel
  obtain ⟨d, hd, hsettings⟩ := Option.map_eq_some_iff.mp hsettings
  rw [hd, Option.map_some] at hsite
  simp only [Prod.mk.injEq, Option.some.injEq] at hsite hsettings
  obtain ⟨hname, hlocation⟩ := hsite
  obtain ⟨hget, hset, hmode, hfactory, hreadOnly⟩ := hsettings
  obtain ⟨hfollows, hdiagnostics, hothers⟩ := read_follows_arguments hd
  have hreports : (repeatedArguments.filter (·.Offends)).map (·.offence "Text" none) =
      [invalidVisibility "Visibility" "Text" none (.string "x"),
        invalidMode "Text" none (.char '\t'), invalidMode "Text" none .null] := by
    decide +kernel
  refine ⟨d, hd, hfollows, hget, hmode, hfactory, hreadOnly, ?_, hothers _ rfl⟩
  rw [hdiagnostics, hname, hlocation, hset, hget, hfactory]
  show (repeatedArguments.filter _).map _ ++ _ ++ _ = _
  rw [hreports]
  simp

end Compilation

end Bindable
