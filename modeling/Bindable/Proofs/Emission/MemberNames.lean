import Bindable.Emission.Members
import Mathlib.Data.List.Nodup
import Mathlib.Data.List.Perm.Basic

/-! The names of generated members. A name is the property's own between a word before it and a word
after it, and these words tell what the member is for, so that no two members of one property share a
name. Members of two properties do only if one of them is the property itself, or if one is a field
and the other a method. -/

namespace Bindable

inductive MemberKind where
  | field | property | method
  deriving DecidableEq, Repr

def Member.kind : Member → MemberKind
  | field _ => .field
  | property _ => .property
  | method _ => .method

/-- What a member is generated for. -/
inductive MemberRole where
  | key | field | accessor | getter | setter | changed | changing | validate | coerce | defaultValue
  deriving DecidableEq, Repr

namespace MemberRole

def all : List MemberRole :=
  [key, field, accessor, getter, setter, changed, changing, validate, coerce, defaultValue]

theorem mem_all (r : MemberRole) : r ∈ all := by
  cases r <;> decide

def start : MemberRole → String
  | key | field | accessor => ""
  | getter => "Get"
  | setter => "Set"
  | changed | changing => "On"
  | validate => "Validate"
  | coerce => "Coerce"
  | defaultValue => "Create"

def ending : MemberRole → String
  | accessor | getter | setter | validate | coerce => ""
  | key => "PropertyKey"
  | field => "Property"
  | changed => "Changed"
  | changing => "Changing"
  | defaultValue => "DefaultValue"

def name (r : MemberRole) (property : String) : String := r.start ++ property ++ r.ending

def kind : MemberRole → MemberKind
  | key | field => .field
  | accessor => .property
  | _ => .method

/-- The methods with nothing after the name of the property. -/
def isOpen : MemberRole → Bool
  | getter | setter | validate | coerce => true
  | _ => false

variable {r r' : MemberRole} {n m : String}

theorem toList_name (r : MemberRole) (n : String) :
    (r.name n).toList = r.start.toList ++ n.toList ++ r.ending.toList := by
  rw [name, String.toList_append, String.toList_append]

theorem name_right_injective (r : MemberRole) : Function.Injective r.name := by
  intro n m h
  have hl := congrArg String.toList h
  rw [toList_name, toList_name] at hl
  exact String.toList_inj.mp (List.append_cancel_left (List.append_cancel_right hl))

/-- The letters that a role adds to a name. No two roles add the same ones. -/
def letters (r : MemberRole) : List Char := r.start.toList ++ r.ending.toList

theorem eq_of_letters_perm (h : r.letters.Perm r'.letters) : r = r' := by
  have hall : ∀ r ∈ all, ∀ r' ∈ all, r.letters.Perm r'.letters → r = r' := by decide +kernel
  exact hall r r.mem_all r' r'.mem_all h

theorem name_left_injective (n : String) : Function.Injective fun r : MemberRole => r.name n := by
  intro r r' h
  have hperm : ∀ r : MemberRole, (r.name n).toList.Perm (n.toList ++ r.letters) := by
    intro r
    rw [toList_name, letters, ← List.append_assoc]
    exact List.perm_append_comm.append_right _
  have hboth : (n.toList ++ r.letters).Perm (n.toList ++ r'.letters) :=
    (hperm r).symm.trans (congrArg String.toList h ▸ hperm r')
  exact eq_of_letters_perm ((List.perm_append_left_iff _).mp hboth)

/-- In every other pair of roles the words before the name or those after it differ in a letter. -/
theorem roles_of_comparable
    (hstart : r.start.toList <+: r'.start.toList ∨ r'.start.toList <+: r.start.toList)
    (hending : r.ending.toList <:+ r'.ending.toList ∨ r'.ending.toList <:+ r.ending.toList) :
    r = r' ∨ r = accessor ∨ r' = accessor ∨ r.kind = .field ∧ r'.isOpen ∨
      r'.kind = .field ∧ r.isOpen := by
  have hall : ∀ r ∈ all, ∀ r' ∈ all,
      (r.start.toList <+: r'.start.toList ∨ r'.start.toList <+: r.start.toList) →
      (r.ending.toList <:+ r'.ending.toList ∨ r'.ending.toList <:+ r.ending.toList) →
      r = r' ∨ r = accessor ∨ r' = accessor ∨ r.kind = .field ∧ r'.isOpen ∨
        r'.kind = .field ∧ r.isOpen := by
    decide +kernel
  exact hall r r.mem_all r' r'.mem_all hstart hending

theorem roles_of_name_eq (h : r.name n = r'.name m) :
    r = r' ∨ r = accessor ∨ r' = accessor ∨ r.kind = .field ∧ r'.isOpen ∨
      r'.kind = .field ∧ r.isOpen := by
  have hl := congrArg String.toList h
  rw [toList_name, toList_name] at hl
  apply roles_of_comparable
  · have hr : r.start.toList <+: r.start.toList ++ n.toList ++ r.ending.toList :=
      ⟨_, (List.append_assoc ..).symm⟩
    have hr' : r'.start.toList <+: r.start.toList ++ n.toList ++ r.ending.toList :=
      ⟨_, (List.append_assoc ..).symm.trans hl.symm⟩
    exact List.prefix_or_prefix_of_prefix hr hr'
  · exact List.suffix_or_suffix_of_suffix (List.suffix_append _ _) ⟨_, hl.symm⟩

theorem start_of_field : r.kind = .field → r.start = "" := by
  cases r <;> decide

theorem ending_of_isOpen : r.isOpen → r.ending = "" := by
  cases r <;> decide

theorem name_of_isOpen (h : r.isOpen) (n : String) : r.name n = r.start ++ n := by
  rw [name, ending_of_isOpen h, String.append_empty]

theorem ending_head?_of_field : r.kind = .field → r.ending.toList.head? = some 'P' := by
  cases r <;> decide

theorem notMem_start (r : MemberRole) : 'P' ∉ r.start.toList := by
  cases r <;> decide

/-- A field and a method of one name: the word before the method's name starts the name of the
field's property, and the word after the field's name ends that of the method's. -/
theorem name_eq_name_iff (hfield : r.kind = .field) (hopen : r'.isOpen) :
    r.name n = r'.name m ↔ ∃ x, n = r'.start ++ x ∧ m = x ++ r.ending := by
  have hname : r.name n = n ++ r.ending := by
    rw [name, start_of_field hfield, String.empty_append]
  rw [hname, name_of_isOpen hopen]
  constructor
  · intro h
    have hl : n.toList ++ r.ending.toList = r'.start.toList ++ m.toList := by
      rw [← String.toList_append, h, String.toList_append]
    rcases List.append_eq_append_iff.mp hl with ⟨x, hx, hx'⟩ | ⟨x, hx, hx'⟩
    · -- what the field's name lacks of the word would start with the letter that the word lacks
      obtain rfl : x = [] := by
        cases x with
        | nil => rfl
        | cons c x =>
          have hletter : c = 'P' := by
            have hhead := ending_head?_of_field hfield
            rw [hx'] at hhead
            exact Option.some_inj.mp hhead
          have hmem : 'P' ∈ r'.start.toList := by
            rw [hx, hletter]
            exact List.mem_append_right _ List.mem_cons_self
          exact absurd hmem r'.notMem_start
      refine ⟨"", ?_, ?_⟩
      · exact String.toList_inj.mp (by simpa using hx.symm)
      · exact String.toList_inj.mp (by simpa using hx'.symm)
    · refine ⟨String.ofList x, ?_, ?_⟩
      · exact String.toList_inj.mp (by simpa using hx)
      · exact String.toList_inj.mp (by simpa using hx')
  · rintro ⟨x, rfl, rfl⟩
    rw [String.append_assoc]

end MemberRole

namespace Descriptor

def fieldRoles (d : Descriptor) : List MemberRole :=
  match d.shape with
  | .writable => [.field]
  | .readOnly => [.key, .field]

def accessorRoles (d : Descriptor) : List MemberRole :=
  match d.site, d.host with
  | .member, _ => []
  | .type, none => [.accessor]
  | .type, some _ => [.getter, .setter]

def stubRoles (d : Descriptor) : List MemberRole :=
  [.changed, .changing] ++ (if d.hasValidate then [.validate] else []) ++
    (if d.hasCoerce then [.coerce] else []) ++ (if d.emitsFactory then [.defaultValue] else [])

/-- What is generated for a property, in the order of the members. -/
def roles (d : Descriptor) : List MemberRole := d.fieldRoles ++ d.accessorRoles ++ d.stubRoles

theorem roles_nodup (d : Descriptor) : d.roles.Nodup := by
  have hfields : d.fieldRoles.Sublist [.key, .field] := by
    rw [fieldRoles]
    cases d.shape <;> decide
  have haccessors : d.accessorRoles.Sublist [.accessor, .getter, .setter] := by
    rw [accessorRoles]
    cases d.site <;> cases d.host <;> simp
  have hstubs : d.stubRoles.Sublist [.changed, .changing, .validate, .coerce, .defaultValue] := by
    rw [stubRoles]
    cases d.hasValidate <;> cases d.hasCoerce <;> cases d.emitsFactory <;> decide
  have hall : MemberRole.all.Nodup := by decide
  exact hall.sublist ((hfields.append haccessors).append hstubs)

theorem members_roles (o : Options) (d : Descriptor) :
    (d.members o).map (fun m => (m.kind, m.name)) =
      d.roles.map fun r => (r.kind, r.name d.name) := by
  have hfields : (d.keyFields o).map (fun m => (m.kind, m.name)) =
      d.fieldRoles.map fun r => (r.kind, r.name d.name) := by
    rw [keyFields, fieldRoles]
    cases d.shape <;> simp [staticField, Member.kind, Member.name, MemberRole.kind,
      MemberRole.name, MemberRole.start, MemberRole.ending, MemberName.field, MemberName.key]
  have haccessors : (d.accessors o).map (fun m => (m.kind, m.name)) =
      d.accessorRoles.map fun r => (r.kind, r.name d.name) := by
    rw [accessors, accessorRoles]
    cases d.site <;> cases d.host <;> simp [instanceAccessor, attachedAccessors, Member.kind,
      Member.name, MemberRole.kind, MemberRole.name, MemberRole.start, MemberRole.ending,
      MemberName.getter, MemberName.setter]
  have hstubs : d.stubs.map (fun m => (m.kind, m.name)) =
      d.stubRoles.map fun r => (r.kind, r.name d.name) := by
    rw [stubs, stubRoles]
    cases d.hasValidate <;> cases d.hasCoerce <;> cases d.emitsFactory <;> simp [stub, Member.kind,
      Member.name, MemberRole.kind, MemberRole.name, MemberRole.start, MemberRole.ending,
      MemberName.changed, MemberName.changing, MemberName.validate, MemberName.coerce,
      MemberName.defaultValue]
  rw [members, roles, List.map_append, List.map_append, List.map_append, List.map_append, hfields,
    haccessors, hstubs]

theorem members_names (o : Options) (d : Descriptor) :
    (d.members o).map (·.name) = d.roles.map fun r => r.name d.name := by
  simpa [Function.comp_def] using congrArg (List.map Prod.snd) (d.members_roles o)

variable {o : Options} {d : Descriptor}

theorem exists_role_of_mem {m : Member} (hm : m ∈ d.members o) :
    ∃ r ∈ d.roles, m.kind = r.kind ∧ m.name = r.name d.name := by
  have hpair := List.mem_map_of_mem (f := fun m : Member => (m.kind, m.name)) hm
  rw [members_roles] at hpair
  obtain ⟨r, hr, he⟩ := List.mem_map.mp hpair
  exact ⟨r, hr, (congrArg Prod.fst he).symm, (congrArg Prod.snd he).symm⟩

theorem exists_member_of_mem_roles {r : MemberRole} (hr : r ∈ d.roles) :
    ∃ m ∈ d.members o, m.kind = r.kind ∧ m.name = r.name d.name := by
  have hpair := List.mem_map_of_mem (f := fun r : MemberRole => (r.kind, r.name d.name)) hr
  rw [← members_roles o] at hpair
  obtain ⟨m, hm, he⟩ := List.mem_map.mp hpair
  exact ⟨m, hm, congrArg Prod.fst he, congrArg Prod.snd he⟩

theorem members_names_nodup (o : Options) (d : Descriptor) :
    ((d.members o).map (·.name)).Nodup := by
  rw [members_names]
  exact d.roles_nodup.map (MemberRole.name_left_injective d.name)

end Descriptor

end Bindable
