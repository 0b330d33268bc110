import Bindable.Proofs.Emission.Wiring
import Bindable.Proofs.Marker.Reading
import Bindable.Proofs.Marker.Settings
import Bindable.Proofs.Text.Identifiers

/-! Which generated names are identifiers. An accepted name is one, and stays one with a word after
it. With a word before it, it does unless it is escaped, because the escaping sign then stands inside
the name. -/

namespace Bindable

namespace MemberRole

theorem start_eq_empty_iff (r : MemberRole) : r.start = "" ↔ r.kind ≠ .method := by
  cases r <;> decide

theorem head?_start_append {r : MemberRole} (h : r.kind = .method) (cs : List Char) :
    (r.start.toList ++ cs).head? ≠ some '@' := by
  cases r <;> simp [kind, start] at h ⊢

theorem isWord_start {r : MemberRole} (h : r.kind = .method) : Text.isWord r.start.toList := by
  revert h
  cases r <;> decide +kernel

theorem all_ending (r : MemberRole) : r.ending.toList.all Text.isIdentifierPart := by
  cases r <;> decide +kernel

/-- What a role makes of an identifier. -/
theorem isIdentifier_name_iff {n : String} (hn : Text.isIdentifier n) (r : MemberRole) :
    Text.isIdentifier (r.name n) ↔ (r.kind = .method → n.toList.head? ≠ some '@') := by
  rw [Text.isIdentifier] at hn ⊢
  rw [toList_name, List.append_assoc]
  by_cases hescaped : n.toList.head? = some '@'
  · obtain ⟨w, hw⟩ := List.head?_eq_some_iff.mp hescaped
    rw [hw] at hn ⊢
    by_cases hkind : r.kind = .method
    · -- the word before the name leaves the sign inside
      have hnot : ¬ Text.isIdentifierChars (r.start.toList ++ ('@' :: w ++ r.ending.toList)) :=
        Text.not_isIdentifierChars (head?_start_append hkind _) (by simp)
      exact iff_of_false hnot fun h => h hkind rfl
    · have hstart : r.start = "" := r.start_eq_empty_iff.mpr hkind
      have hword : Text.isIdentifierChars ('@' :: (w ++ r.ending.toList)) :=
        Text.isWord_append hn r.all_ending
      rw [hstart]
      exact iff_of_true hword fun h => absurd h hkind
  · have hword : Text.isWord (n.toList ++ r.ending.toList) := by
      rw [Text.isIdentifierChars_eq hescaped] at hn
      exact Text.isWord_append hn r.all_ending
    refine iff_of_true (Text.isIdentifierChars_of_isWord ?_) fun _ => hescaped
    by_cases hkind : r.kind = .method
    · exact Text.isWord_append (r.isWord_start hkind) (Text.all_of_isWord hword)
    · rw [r.start_eq_empty_iff.mpr hkind]
      exact hword

end MemberRole

/-- The names in an expression, those of parameters included. -/
def Expr.names (e : Expr) : List String :=
  e.parts.flatMap fun
    | .ident name | .member _ name => [name]
    | .lambda params _ => params
    | _ => []

namespace Expr

theorem names_ident (n : String) : (ident n).names = [n] := rfl

theorem names_member (target : Expr) (n : String) :
    (member target n).names = n :: target.names :=
  rfl

theorem names_cast (type : String) (operand : Expr) : (cast type operand).names = operand.names :=
  rfl

theorem names_lambda (params : List String) (body : Expr) :
    (lambda params body).names = params ++ body.names :=
  rfl

theorem names_call (target : Expr) (arguments : List (Option String × Expr)) :
    (call target arguments).names = target.names ++ arguments.flatMap (·.2.names) := by
  rw [names, parts, partsOfArguments_eq, List.flatMap_cons, List.flatMap_append, List.flatMap_assoc]
  rfl

end Expr

/-- Where a member speaks of generated members: its callbacks and its bodies. -/
def Member.code : Member → List Expr
  | .field f => f.initializer.callbacks
  | m => m.exprs

def usedNames (ms : List Member) : List String :=
  ms.map (·.name) ++ (ms.flatMap (·.code)).flatMap (·.names)

/-- The names that the code shares with every property. -/
def commonNames : List String :=
  ["bindable", "view", "value", "oldValue", "newValue", "GetValue", "SetValue"]

namespace Descriptor

variable {o : Options} {d : Descriptor} {n : String}

theorem code_members (o : Options) (d : Descriptor) :
    (d.members o).flatMap (·.code) = d.createCall.callbacks ++ (d.accessors o).flatMap (·.code) := by
  have hfields : (d.keyFields o).flatMap (·.code) = d.createCall.callbacks := by
    rw [keyFields]
    cases d.shape <;> simp [staticField, Member.code, Expr.callbacks]
  have hstubs : d.stubs.flatMap (·.code) = [] := by
    refine List.flatMap_eq_nil_iff.mpr fun m hm => ?_
    obtain ⟨s, rfl, hbody⟩ := exists_stub_of_mem hm
    rw [Member.code, Member.exprs, hbody]
    · rfl
    · simp
  rw [members, List.flatMap_append, List.flatMap_append, hfields, hstubs, List.append_nil]

theorem callback_names (d : Descriptor) (r : MemberRole) :
    ∀ n ∈ (d.callback r).names, n ∈ commonNames ∨ n = r.name d.name := by
  have hvalues : ∀ x ∈ callbackValues r, x ∈ commonNames := by
    cases r <;> decide
  have hobject : "bindable" ∈ commonNames := by decide
  have harguments : ((callbackValues r).map d.typedArgument).flatMap (·.2.names) =
      callbackValues r := by
    rw [List.flatMap_map]
    exact List.flatMap_singleton' _
  have hnames : (d.callback r).names = ("bindable" :: callbackValues r) ++
      r.name d.name :: "bindable" :: callbackValues r := by
    rw [callback, forward]
    cases d.host with
    | none =>
      rw [Expr.names_lambda, Expr.names_call, Expr.names_member, Expr.names_cast, Expr.names_ident,
        harguments]
      rfl
    | some host =>
      rw [Expr.names_lambda, Expr.names_call, Expr.names_ident, List.flatMap_cons, harguments]
      rfl
  intro n hn
  rw [hnames, List.mem_append, List.mem_cons, List.mem_cons, List.mem_cons] at hn
  rcases hn with (rfl | hn) | rfl | rfl | hn
  · exact .inl hobject
  · exact .inl (hvalues n hn)
  · exact .inr rfl
  · exact .inl hobject
  · exact .inl (hvalues n hn)

theorem accessors_names (o : Options) (d : Descriptor) :
    ∀ n ∈ ((d.accessors o).flatMap (·.code)).flatMap (·.names),
      n ∈ commonNames ∨ n = MemberName.field d.name ∨ n = d.writeHandle := by
  have hcommon : "GetValue" ∈ commonNames ∧ "SetValue" ∈ commonNames ∧ "view" ∈ commonNames ∧
      "value" ∈ commonNames := by
    decide
  rw [accessors]
  cases d.site with
  | member => simp
  | type =>
    cases d.host <;>
      simp [instanceAccessor, attachedAccessors, Member.code, Member.exprs, Expr.names_call,
        Expr.names_member, Expr.names_cast, Expr.names_ident, Expr.positional, hcommon]

/-- Every name in the code of a property is common to all properties or made for one of its roles. -/
theorem exists_role_of_mem_usedNames (hn : n ∈ usedNames (d.members o)) :
    n ∈ commonNames ∨ ∃ r ∈ d.roles, n = r.name d.name := by
  rw [usedNames, code_members, List.flatMap_append, members_names] at hn
  rcases List.mem_append.mp hn with hn | hn
  · obtain ⟨r, hr, rfl⟩ := List.mem_map.mp hn
    exact .inr ⟨r, hr, rfl⟩
  rcases List.mem_append.mp hn with hn | hn
  · obtain ⟨e, he, hn⟩ := List.mem_flatMap.mp hn
    obtain ⟨r, hr, rfl⟩ := List.mem_map.mp (d.callbacks_createCall.mem_iff.mp he)
    have hroles : r ∈ d.roles := List.mem_append_right _ hr
    exact (d.callback_names r n hn).imp_right fun hname => ⟨r, hroles, hname⟩
  · rcases d.accessors_names o n hn with hcommon | rfl | rfl
    · exact .inl hcommon
    · exact .inr ⟨.field, d.field_mem_roles, rfl⟩
    · rw [writeHandle_eq]
      split
      case isTrue hshape => exact .inr ⟨.key, d.key_mem_roles_iff.mpr hshape, rfl⟩
      case isFalse => exact .inr ⟨.field, d.field_mem_roles, rfl⟩

theorem isIdentifier_of_mem_commonNames : ∀ n ∈ commonNames, Text.isIdentifier n := by
  decide +kernel

theorem isIdentifier_usedNames_iff (o : Options) (hname : Text.isIdentifier d.name) :
    (∀ n ∈ usedNames (d.members o), Text.isIdentifier n) ↔ d.name.toList.head? ≠ some '@' := by
  constructor
  · intro hall
    have hchanged : MemberRole.changed ∈ d.roles := by simp [roles, stubRoles]
    have hmem : MemberRole.changed.name d.name ∈ usedNames (d.members o) := by
      rw [usedNames, members_names]
      exact List.mem_append_left _ (List.mem_map_of_mem hchanged)
    exact (MemberRole.isIdentifier_name_iff hname .changed).mp (hall _ hmem) rfl
  · intro hescaped n hn
    rcases exists_role_of_mem_usedNames hn with hcommon | ⟨r, -, rfl⟩
    · exact isIdentifier_of_mem_commonNames n hcommon
    · exact (MemberRole.isIdentifier_name_iff hname r).mpr fun _ => hescaped

/-- Of an escaped property only the methods have names that are no identifiers. -/
theorem isIdentifier_iff_of_escaped (hname : Text.isIdentifier d.name)
    (hescaped : d.name.toList.head? = some '@') (hn : n ∈ usedNames (d.members o)) :
    Text.isIdentifier n ↔ ∀ m ∈ d.members o, m.kind = .method → m.name ≠ n := by
  constructor
  · rintro hid m hm hkind rfl
    obtain ⟨r, -, hrkind, hrname⟩ := exists_role_of_mem hm
    rw [hrname] at hid
    exact (MemberRole.isIdentifier_name_iff hname r).mp hid (hrkind ▸ hkind) hescaped
  · intro hmethods
    rcases exists_role_of_mem_usedNames hn with hcommon | ⟨r, hr, rfl⟩
    · exact isIdentifier_of_mem_commonNames n hcommon
    · obtain ⟨m, hm, hkind, hmname⟩ := exists_member_of_mem_roles (o := o) hr
      have hmethod : r.kind ≠ .method := fun h => hmethods m hm (hkind.trans h) hmname
      exact (MemberRole.isIdentifier_name_iff hname r).mpr fun h => absurd h hmethod

end Descriptor

namespace Compilation

variable {c : Compilation} {t : TypeDeclaration} {occurrence : Occurrence} {d : Descriptor}

theorem isIdentifier_of_read (hsite : ∀ p a, occurrence ≠ .onProperty p a)
    (hread : (c.read t occurrence).descriptor = some d) : Text.isIdentifier d.name := by
  have hname : ∀ {base : Descriptor} {args : List NamedArgument},
      (base.applyArguments c args).descriptor = some d → d.name = base.name := by
    intro base args h
    obtain ⟨s, value, -, rfl, -⟩ := Descriptor.exists_of_applyArguments h
    rfl
  cases occurrence with
  | onType a =>
    obtain ⟨base, hbase, -, -, -, hid⟩ := exists_base_of_onType hread
    rw [hbase.read_eq] at hread
    rwa [hname hread]
  | onProperty p a => exact absurd rfl (hsite p a)
  | onMethod m a =>
    obtain ⟨-, base, hbase, -, -, -, hgetter⟩ := exists_base_of_onMethod hread
    rw [hbase.read_eq] at hread
    rw [hname hread]
    exact Text.isIdentifier_of_attachedName? hgetter

/-- The names of a property that a marker on a type or on a getter method declares. -/
theorem usedNames_identifiers (hsite : ∀ p a, occurrence ≠ .onProperty p a)
    (hread : (c.read t occurrence).descriptor = some d) (o : Options) :
    ((∀ n ∈ usedNames (d.members o), Text.isIdentifier n) ↔ d.name.toList.head? ≠ some '@') ∧
      (d.name.toList.head? = some '@' → ∀ n ∈ usedNames (d.members o),
        (Text.isIdentifier n ↔ ∀ m ∈ d.members o, m.kind = .method → m.name ≠ n)) := by
  have hname := isIdentifier_of_read hsite hread
  exact ⟨d.isIdentifier_usedNames_iff o hname,
    fun hescaped _ => Descriptor.isIdentifier_iff_of_escaped hname hescaped⟩

theorem usedNames_identifiers_escaped :
    let marker : Attribute :=
      { name := "BindableProperty", typeArguments := [.ofPrimitive .string],
        arguments := [.string "@class"], namedArguments := [], location := none }
    ∃ d, (Compilation.readOnType default default marker).descriptor = some d ∧
      ¬ ∀ n ∈ usedNames (d.members default), Text.isIdentifier n := by
  intro marker
  have hname : ((default : Compilation).read default (.onType marker)).descriptor.map (·.name) =
      some "@class" := by
    decide +kernel
  obtain ⟨d, hread, hd⟩ := Option.map_eq_some_iff.mp hname
  refine ⟨d, hread, fun hall => ?_⟩
  exact (usedNames_identifiers (by simp) hread default).1.mp hall (by rw [hd]; decide)

end Compilation

end Bindable
