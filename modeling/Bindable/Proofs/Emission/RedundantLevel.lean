import Bindable.Emission.Members
import Bindable.Proofs.Marker.Reading
import Bindable.Proofs.Marker.Settings

/-! The report that a write level can be removed. Without the level the marker is read to the same
property, whose members are the same unless it is read-only: then writing is private. -/

namespace Bindable

/-- The marker with all arguments of one name removed. -/
def Occurrence.without (key : String) (o : Occurrence) : Occurrence :=
  o.withArguments (o.marker.namedArguments.filter fun arg => arg.name ≠ key)

/-- The property without a write level of its own. -/
def Descriptor.inheriting (d : Descriptor) : Descriptor := { d with setVisibility := none }

section Arguments

variable {args : List NamedArgument}

theorem valuesOf_filter_self (key : String) :
    valuesOf key (args.filter fun arg => arg.name ≠ key) = [] := by
  simp [valuesOf, List.filter_filter]

theorem valuesOf_filter_of_ne {key other : String} (h : key ≠ other) :
    valuesOf key (args.filter fun arg => arg.name ≠ other) = valuesOf key args := by
  rw [valuesOf, valuesOf, List.filter_filter]
  congr 2
  funext arg
  by_cases harg : arg.name = key
  · simp [harg, h]
  · simp [harg]

/-- Only the write level is read from the arguments under its name. -/
theorem Settings.ofArguments_without (property : String) (location : Option Location)
    (isReadOnly : Bool) (args : List NamedArgument) :
    ∃ ds, ofArguments property location isReadOnly
        (args.filter fun arg => arg.name ≠ "WriteVisibility") =
      { ofArguments property location isReadOnly args with
        setVisibility := none, diagnostics := ds } := by
  refine ⟨(args.filter fun arg => arg.name ≠ "WriteVisibility").flatMap
    (complaints property location), ?_⟩
  rw [ofArguments, ofArguments, foldl_apply_eq, foldl_apply_eq]
  simp only [valuesOf_filter_self, List.foldl_nil, List.nil_append,
    valuesOf_filter_of_ne (by decide : "DefaultMode" ≠ "WriteVisibility"),
    valuesOf_filter_of_ne (by decide : "Visibility" ≠ "WriteVisibility"),
    valuesOf_filter_of_ne (by decide : "IsReadOnly" ≠ "WriteVisibility"),
    valuesOf_filter_of_ne (by decide : "DefaultValueFactory" ≠ "WriteVisibility"),
    valuesOf_filter_of_ne (by decide : "CoerceValueCallback" ≠ "WriteVisibility"),
    valuesOf_filter_of_ne (by decide : "ValidateValueCallback" ≠ "WriteVisibility"),
    valuesOf_filter_of_ne (by decide : "DefaultValue" ≠ "WriteVisibility")]

end Arguments

namespace Descriptor

variable {c : Compilation} {base d : Descriptor} {args : List NamedArgument}

theorem applyArguments_without (c : Compilation) (base : Descriptor) (args : List NamedArgument) :
    (base.applyArguments c (args.filter fun arg => arg.name ≠ "WriteVisibility")).descriptor =
      (base.applyArguments c args).descriptor.map inheriting := by
  obtain ⟨ds, hds⟩ := Settings.ofArguments_without base.name base.location base.isReadOnly args
  rw [applyArguments_eq, applyArguments_eq, hds]
  generalize Settings.ofArguments base.name base.location base.isReadOnly args = s
  have hdefault : { s with setVisibility := none, diagnostics := ds }.usedDefault? =
      s.usedDefault? := rfl
  simp only [hdefault]
  cases s.usedDefault? with
  | none => rfl
  | some v =>
    simp only [Option.map_map]
    rfl

theorem redundant_iff (h : (base.applyArguments c args).descriptor = some d) :
    (∃ r ∈ (base.applyArguments c args).diagnostics, r.id = .redundantWriteVisibility) ↔
      d.setVisibility = some d.getVisibility := by
  obtain ⟨rest, s, hs, hdiagnostics, hrest⟩ := applyArguments_diagnostics c base args
  obtain ⟨s', value, hs', rfl, -⟩ := exists_of_applyArguments h
  obtain rfl : s' = s := hs'.trans hs.symm
  show _ ↔ s'.setVisibility = some s'.getVisibility
  have harguments : ∀ r ∈ s'.diagnostics, r.id ≠ .redundantWriteVisibility := by
    intro r hr hid
    rw [hs] at hr
    simpa [hid] using Settings.id_of_mem_ofArguments hr
  rw [hdiagnostics]
  constructor
  · rintro ⟨r, hr, hid⟩
    by_contra hlevel
    rw [if_neg hlevel, List.append_nil, List.mem_append] at hr
    obtain hr | hr := hr
    · exact harguments r hr hid
    · simpa [hid] using hrest r hr
  · intro hlevel
    rw [if_pos hlevel]
    exact ⟨_, List.mem_append_left _ (List.mem_append_right _ List.mem_cons_self), rfl⟩

/-- The members do not see more of the write level than where the property is written and who may
do so. -/
theorem inheriting_members (options : Options) (hshape : d.inheriting.shape = d.shape)
    (hlevel : d.inheriting.effectiveSetVisibility = d.effectiveSetVisibility) :
    d.inheriting.members options = d.members options := by
  have hcreate : d.inheriting.createCall = d.createCall := by
    simp only [createCall, createMethod, hshape]
    rfl
  have hfields : d.inheriting.keyFields options = d.keyFields options := by
    simp only [keyFields, hshape, hlevel, hcreate]
    rfl
  have haccessors : d.inheriting.accessors options = d.accessors options := by
    simp only [accessors, instanceAccessor, attachedAccessors, accessorLevels, writeHandle, hshape,
      hlevel]
    rfl
  rw [members, members, hfields, haccessors]
  rfl

theorem inheriting_members_iff (options : Options) (h : d.setVisibility = some d.getVisibility) :
    d.inheriting.members options = d.members options ↔
      d.isReadOnly = false ∨ d.getVisibility = .privateAccess := by
  have hshape : d.inheriting.shape = d.shape := by
    simp [shape, inheriting, h]
  have hlevel : d.effectiveSetVisibility = d.getVisibility := by
    rw [effectiveSetVisibility, h]
  cases hreadOnly : d.isReadOnly with
  | false =>
    have hsame : d.inheriting.effectiveSetVisibility = d.effectiveSetVisibility := by
      rw [hlevel]
      simp [effectiveSetVisibility, inheriting, hreadOnly]
    simp [inheriting_members options hshape hsame]
  | true =>
    have hprivate : d.inheriting.effectiveSetVisibility = .privateAccess := by
      simp [effectiveSetVisibility, inheriting, hreadOnly]
    constructor
    · intro hmembers
      right
      have hshape' : d.shape = .readOnly := by simp [shape, hreadOnly]
      -- the key field comes first and shows the level
      simp only [members, keyFields, hshape, hshape', hlevel, hprivate, List.cons_append] at hmembers
      have hkey := (List.cons.inj hmembers).1
      simp only [staticField, Member.field.injEq, FieldMember.mk.injEq] at hkey
      have hmodifiers := List.append_cancel_right hkey.2.1
      cases hget : d.getVisibility with
      | privateAccess => rfl
      | _ => simp [hget, Visibility.modifiers] at hmodifiers
    · rintro (hfalse | hget)
      · simp at hfalse
      · exact inheriting_members options hshape (by rw [hprivate, hlevel, hget])

end Descriptor

namespace Compilation

variable {c : Compilation} {t : TypeDeclaration} {o : Occurrence} {d : Descriptor}

/-- Where a write level is reported as one to be removed, the marker without it is read to the same
property, and its members are the same if and only if the property is not read-only or private
anyway. -/
theorem members_without_level_iff (hd : (c.read t o).descriptor = some d)
    (hredundant : ∃ r ∈ (c.read t o).diagnostics, r.id = .redundantWriteVisibility) :
    (c.read t (o.without "WriteVisibility")).descriptor = some d.inheriting ∧
    ∀ options, d.inheriting.members options = d.members options ↔
      d.isReadOnly = false ∨ d.getVisibility = .privateAccess := by
  obtain ⟨base, hbase, -⟩ := exists_base_of_read hd
  rw [hbase.read_eq] at hd hredundant
  refine ⟨?_, fun options => ?_⟩
  · rw [Occurrence.without, hbase.read_withArguments, Descriptor.applyArguments_without, hd,
      Option.map_some]
  · exact Descriptor.inheriting_members_iff options ((Descriptor.redundant_iff hd).mp hredundant)

/-- A property that is only to be read, with a key that everyone may write as long as the level is
given. -/
def publicKeyMarker : Attribute :=
  { name := "BindableProperty", arguments := [.string "Text"], location := none
    typeArguments := [{ name := "string", primitive := some .string, isValueType := false,
                        nullable := false, isTypeParameter := false }]
    namedArguments := [{ name := "IsReadOnly", value := .bool true },
                       { name := "WriteVisibility", value := .enumeration "Visibility" 1 }] }

theorem members_without_level_iff_publicKey :
    let c : Compilation := {}
    let t : TypeDeclaration :=
      { (default : TypeDeclaration) with namespaceName := some "Demo", name := "Label" }
    let o := Occurrence.onType publicKeyMarker
    ∃ d, (c.read t o).descriptor = some d ∧
      (∃ r ∈ (c.read t o).diagnostics, r.id = .redundantWriteVisibility) ∧
      (c.read t (o.without "WriteVisibility")).descriptor = some d.inheriting ∧
      ∀ options, d.inheriting.members options ≠ d.members options := by
  intro c t o
  have hlevels : (c.read t o).descriptor.map (fun d => (d.isReadOnly, d.getVisibility)) =
      some (true, .publicAccess) := by
    decide +kernel
  have hredundant : ∃ r ∈ (c.read t o).diagnostics, r.id = .redundantWriteVisibility := by
    decide +kernel
  obtain ⟨d, hd, hlevels⟩ := Option.map_eq_some_iff.mp hlevels
  obtain ⟨hread, hmembers⟩ := members_without_level_iff hd hredundant
  refine ⟨d, hd, hredundant, hread, fun options => (hmembers options).not.mpr ?_⟩
  simp only [Prod.mk.injEq] at hlevels
  simp [hlevels]

end Compilation

end Bindable
