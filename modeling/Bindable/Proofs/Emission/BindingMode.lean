import Bindable.Proofs.Emission.Wiring
import Bindable.Proofs.Marker.LastArguments

/-! The mode that the creating call is given. A number with a name becomes that name, any other one
is cast as an `int` literal, so that it is legal only within the range of `int`. -/

namespace Bindable

namespace Expr

def modeAccess (mode : BindingMode) : Expr := member (ident Framework.bindingMode) mode.name

def modeCast (kind : IntegerKind) (n : Int) : Expr :=
  cast Framework.bindingMode (literal (.integer (.integer kind) n))

/-- A mode by its name, or a number from the range of the kind it is written with. -/
inductive IsLegalMode : Expr → Prop where
  | access (mode : BindingMode) : IsLegalMode (modeAccess mode)
  | conversion {kind : IntegerKind} {n : Int} (h : kind.Holds n) : IsLegalMode (modeCast kind n)

/-- The mode for the number that a marker asks for, if it asks for any. -/
inductive IsModeFor : Option Int → Expr → Prop where
  | absent : IsModeFor none (modeAccess .oneWay)
  | named {mode : BindingMode} {n : Int} (h : mode.number = n) :
    IsModeFor (some n) (modeAccess mode)
  | other {n : Int} (h : n < 0 ∨ 4 < n) : IsModeFor (some n) (modeCast .int n)

theorem isLegalMode_modeCast_iff {kind : IntegerKind} {n : Int} :
    (modeCast kind n).IsLegalMode ↔ kind.Holds n := by
  constructor
  · intro h
    rw [modeCast] at h
    cases h with
    | conversion h => exact h
  · exact .conversion

theorem IsModeFor.isLegalMode_iff {number : Option Int} {e : Expr} (h : e.IsModeFor number) :
    e.IsLegalMode ↔ ∀ n ∈ number, IntegerKind.int.Holds n := by
  cases h with
  | absent => exact ⟨fun _ n hn => absurd hn (Option.not_mem_none n), fun _ => .access _⟩
  | @named mode k hk =>
    refine ⟨fun _ n hn => ?_, fun _ => .access mode⟩
    rw [← Option.mem_some.mp hn, ← hk]
    cases mode <;> decide
  | other =>
    rw [isLegalMode_modeCast_iff]
    exact ⟨fun h n hn => Option.mem_some.mp hn ▸ h, fun h => h _ rfl⟩

end Expr

/-- The number that the last readable argument for the mode gives. -/
def modeNumber? (args : List NamedArgument) : Option Int :=
  ((valuesOf "DefaultMode" args).filterMap (·.toInt?)).getLast?

theorem foldl_toInt?_getD (vs : List Constant) (mode : DefaultMode) :
    vs.foldl (fun mode v => (v.toInt?.map DefaultMode.ofNumber).getD mode) mode =
      ((vs.filterMap (·.toInt?)).getLast?.map DefaultMode.ofNumber).getD mode := by
  induction vs using List.reverseRecOn with
  | nil => rfl
  | append_singleton vs v ih =>
    rw [List.foldl_append, List.foldl_cons, List.foldl_nil, ih, List.filterMap_append]
    cases hv : v.toInt? <;> simp [hv]

namespace Descriptor

variable {c : Compilation} {base d : Descriptor} {args : List NamedArgument}

theorem defaultMode_of_applyArguments (h : (base.applyArguments c args).descriptor = some d) :
    d.defaultMode = ((modeNumber? args).map DefaultMode.ofNumber).getD (.known .oneWay) := by
  obtain ⟨s, value, hs, rfl, -⟩ := exists_of_applyArguments h
  have hmode : s.defaultMode = (valuesOf "DefaultMode" args).foldl
      (fun mode v => (v.toInt?.map DefaultMode.ofNumber).getD mode) (.known .oneWay) := by
    rw [hs, Settings.ofArguments, Settings.foldl_apply_eq]
  rw [withSettings, hmode, foldl_toInt?_getD, modeNumber?]

theorem argument?_defaultBindingMode (d : Descriptor) :
    d.createCall.argument? "defaultBindingMode" = some d.defaultMode.expr :=
  rfl

end Descriptor

theorem DefaultMode.isModeFor_expr (number : Option Int) :
    ((number.map ofNumber).getD (.known .oneWay)).expr.IsModeFor number := by
  cases number with
  | none => exact .absent
  | some n =>
    rw [Option.map_some, Option.getD_some]
    have hmode : (ofNumber n).StandsFor n := standsFor_iff.mpr rfl
    cases hn : ofNumber n with
    | known mode =>
      rw [hn] at hmode
      exact .named hmode
    | raw k =>
      rw [hn] at hmode
      obtain ⟨rfl, hout⟩ := hmode
      exact .other hout

namespace Compilation

variable {c : Compilation} {t : TypeDeclaration} {o : Occurrence} {d : Descriptor}

/-- The one call that creates the property has a mode, which is what the last readable argument asks
for, and it is legal if and only if no number outside the range of `int` is asked for. -/
theorem defaultBindingMode_isLegalMode_iff (options : Options)
    (h : (c.read t o).descriptor = some d) :
    ∃ call mode, (d.members options).filterMap (·.creation?) = [call] ∧
      call.argument? "defaultBindingMode" = some mode ∧
      mode.IsModeFor (modeNumber? o.marker.namedArguments) ∧
      (mode.IsLegalMode ↔
        ∀ n ∈ modeNumber? o.marker.namedArguments, IntegerKind.int.Holds n) := by
  obtain ⟨base, hbase, -⟩ := exists_base_of_read h
  rw [hbase.read_eq] at h
  have hmode : d.defaultMode.expr.IsModeFor (modeNumber? o.marker.namedArguments) := by
    rw [Descriptor.defaultMode_of_applyArguments h]
    exact DefaultMode.isModeFor_expr _
  exact ⟨d.createCall, d.defaultMode.expr, d.members_creation? options,
    d.argument?_defaultBindingMode, hmode, hmode.isLegalMode_iff⟩

theorem defaultBindingMode_isLegalMode_iff_wide :
    let c : Compilation := {}
    let o : Occurrence := .onType
      { name := "BindableProperty", arguments := [.string "Text"],
        typeArguments := [.ofPrimitive .string],
        namedArguments := [⟨"DefaultMode", .integer .long 5000000000 (by decide)⟩],
        location := none }
    ∃ d call, (c.read default o).descriptor = some d ∧
      (d.members {}).filterMap (·.creation?) = [call] ∧
      ∃ mode, call.argument? "defaultBindingMode" = some mode ∧
        mode = .modeCast .int 5000000000 ∧ ¬ mode.IsLegalMode := by
  intro c o
  have hread : (c.read default o).descriptor.isSome := by decide +kernel
  obtain ⟨d, hd⟩ := Option.isSome_iff_exists.mp hread
  obtain ⟨call, mode, hcall, hargument, hmode, hlegal⟩ := defaultBindingMode_isLegalMode_iff {} hd
  have hnumber : modeNumber? o.marker.namedArguments = some 5000000000 := by decide +kernel
  rw [hnumber] at hmode hlegal
  refine ⟨d, call, hd, hcall, mode, hargument, ?_, fun h => ?_⟩
  · cases hmode with
    | @named mode _ hn => cases mode <;> contradiction
    | other => rfl
  · exact absurd (hlegal.mp h _ rfl) (by decide)

end Compilation

end Bindable
