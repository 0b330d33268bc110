import Bindable.Proofs.Emission.Gathering
import Bindable.Proofs.Emission.MemberNames
import Mathlib.Data.List.Pairwise

/-! The names of all that is generated for a type. The names of properties are unique, but a property
may be called like a member of another one, and the field of one like a method of another. Apart from
these clashes no name comes twice. -/

namespace Bindable

/-- Members of one name are methods that take other types. -/
def Member.Distinct (a b : Member) : Prop :=
  a.name = b.name → ∃ m n, a = .method m ∧ b = .method n ∧
    m.parameters.map (·.type) ≠ n.parameters.map (·.type)

namespace Gathered

variable {t : TypeDeclaration} {taken : List String} {g : Gathered}

theorem add_names_nodup (r : Reading) (h : (taken ++ g.descriptors.map (·.name)).Nodup) :
    (taken ++ (add t taken g r).descriptors.map (·.name)).Nodup := by
  rw [add]
  cases r.descriptor with
  | none => exact h
  | some d =>
    dsimp only
    split
    case isTrue _ => exact h
    case isFalse hd =>
      rw [List.map_append, ← List.append_assoc]
      exact h.append (List.nodup_singleton d.name) (List.disjoint_singleton.mpr hd)

theorem ofReadings_names_nodup (t : TypeDeclaration) (htaken : taken.Nodup) (rs : List Reading) :
    (taken ++ (ofReadings t taken rs).descriptors.map (·.name)).Nodup := by
  have hfold : ∀ g : Gathered, (taken ++ g.descriptors.map (·.name)).Nodup →
      (taken ++ (rs.foldl (add t taken) g).descriptors.map (·.name)).Nodup := by
    induction rs with
    | nil => exact fun _ h => h
    | cons r rs ih => exact fun g h => ih _ (add_names_nodup r h)
  exact hfold {} (by simpa using htaken)

end Gathered

namespace MemberRole

theorem name_accessor (n : String) : accessor.name n = n := by
  rw [name, start, ending, String.append_empty, String.empty_append]

end MemberRole

namespace Descriptor

/-- A member for `e` is called like the property for `d`, or a method for `e` like a field for `d`.
The method's name then starts the name of `d`, and `e` goes on from there as the field does. -/
def Clashes (d e : Descriptor) : Prop :=
  (.accessor ∈ d.roles ∧ ∃ r ∈ e.roles, r ≠ .accessor ∧ d.name = r.name e.name) ∨
    ∃ r ∈ d.roles, ∃ r' ∈ e.roles, r.kind = .field ∧ r'.isOpen ∧
      ∃ x, d.name = r'.start ++ x ∧ e.name = x ++ r.ending

variable {o : Options} {d e : Descriptor}

theorem Clashes.exists_roles (h : d.Clashes e) :
    ∃ r ∈ d.roles, ∃ r' ∈ e.roles, r.kind ≠ .method ∧ r ≠ r' ∧ r.name d.name = r'.name e.name := by
  rcases h with ⟨hr, r', hr', hne, hname⟩ | ⟨r, hr, r', hr', hfield, hopen, hname⟩
  · refine ⟨.accessor, hr, r', hr', by decide, hne.symm, ?_⟩
    rw [MemberRole.name_accessor, hname]
  · refine ⟨r, hr, r', hr', by rw [hfield]; decide, ?_, ?_⟩
    · rintro rfl
      cases r <;> simp [MemberRole.kind, MemberRole.isOpen] at hfield hopen
    · exact (MemberRole.name_eq_name_iff hfield hopen).mpr hname

theorem not_clashes_self (d : Descriptor) : ¬ d.Clashes d := by
  intro h
  obtain ⟨r, -, r', -, -, hne, hname⟩ := h.exists_roles
  exact hne (MemberRole.name_left_injective d.name hname)

theorem clashes_of_name_eq {r r' : MemberRole} (hr : r ∈ d.roles) (hr' : r' ∈ e.roles)
    (hne : d.name ≠ e.name) (hname : r.name d.name = r'.name e.name) :
    d.Clashes e ∨ e.Clashes d := by
  have hdiffer : r ≠ r' := by
    rintro rfl
    exact hne (r.name_right_injective hname)
  rcases MemberRole.roles_of_name_eq hname with h | rfl | rfl | ⟨hfield, hopen⟩ | ⟨hfield, hopen⟩
  · exact absurd h hdiffer
  · rw [MemberRole.name_accessor] at hname
    exact .inl (.inl ⟨hr, r', hr', hdiffer.symm, hname⟩)
  · rw [MemberRole.name_accessor] at hname
    exact .inr (.inl ⟨hr', r, hr, hdiffer, hname.symm⟩)
  · have hparts := (MemberRole.name_eq_name_iff hfield hopen).mp hname
    exact .inl (.inr ⟨r, hr, r', hr', hfield, hopen, hparts⟩)
  · have hparts := (MemberRole.name_eq_name_iff hfield hopen).mp hname.symm
    exact .inr (.inr ⟨r', hr', r, hr, hfield, hopen, hparts⟩)

theorem not_distinct_of_clashes (h : d.Clashes e) :
    ∃ a ∈ d.members o, ∃ b ∈ e.members o, ¬ a.Distinct b ∧ ¬ b.Distinct a := by
  obtain ⟨r, hr, r', hr', hkind, -, hname⟩ := h.exists_roles
  obtain ⟨a, ha, hakind, haname⟩ := exists_member_of_mem_roles (o := o) hr
  obtain ⟨b, hb, -, hbname⟩ := exists_member_of_mem_roles (o := o) hr'
  have hab : a.name = b.name := by rw [haname, hname, hbname]
  refine ⟨a, ha, b, hb, fun hd => ?_, fun hd => ?_⟩
  · obtain ⟨m, n, rfl, -, -⟩ := hd hab
    exact hkind hakind.symm
  · obtain ⟨m, n, -, rfl, -⟩ := hd hab.symm
    exact hkind hakind.symm

/-- Different properties clash, or no two of their members share a name. -/
theorem distinct_iff (o : Options) (hne : d.name ≠ e.name) :
    (∀ a ∈ d.members o, ∀ b ∈ e.members o, a.Distinct b) ↔ ¬ d.Clashes e ∧ ¬ e.Clashes d := by
  constructor
  · intro h
    refine ⟨fun hde => ?_, fun hed => ?_⟩
    · obtain ⟨a, ha, b, hb, hab, -⟩ := not_distinct_of_clashes (o := o) hde
      exact hab (h a ha b hb)
    · obtain ⟨b, hb, a, ha, -, hab⟩ := not_distinct_of_clashes (o := o) hed
      exact hab (h a ha b hb)
  · rintro ⟨hde, hed⟩ a ha b hb hab
    obtain ⟨r, hr, -, haname⟩ := exists_role_of_mem ha
    obtain ⟨r', hr', -, hbname⟩ := exists_role_of_mem hb
    rw [haname, hbname] at hab
    exact absurd (clashes_of_name_eq hr hr' hne hab) (not_or.mpr ⟨hde, hed⟩)

theorem members_pairwise_distinct (o : Options) (d : Descriptor) :
    (d.members o).Pairwise Member.Distinct := by
  have hnames : (d.members o).Pairwise fun a b => a.name ≠ b.name :=
    List.pairwise_map.mp (d.members_names_nodup o)
  exact hnames.imp fun hne heq => absurd heq hne

end Descriptor

namespace Compilation

theorem entries_names_nodup (c : Compilation) (t : TypeDeclaration) :
    (((c.entries t).flatMap (·.descriptors)).map (·.name)).Nodup := by
  by_cases hkind : t.kind = .enumType ∨ t.kind = .interfaceType
  · rw [entries, if_pos hkind]
    exact .nil
  · have hinstances : ((c.gathered t .onInstance).descriptors.map (·.name)).Nodup :=
      Gathered.ofReadings_names_nodup t List.nodup_nil (c.readings t .onInstance)
    rw [flatMap_entries (not_or.mp hkind) fun _ hd _ => hd, List.map_append]
    exact Gathered.ofReadings_names_nodup t hinstances (c.readings t .attached)

theorem members_distinct_iff (c : Compilation) (t : TypeDeclaration) (o : Options) :
    ((c.entries t).flatMap fun e => (e.unit o).members).Pairwise Member.Distinct ↔
      ∀ d ∈ (c.entries t).flatMap (·.descriptors), ∀ e ∈ (c.entries t).flatMap (·.descriptors),
        ¬ d.Clashes e := by
  have hmembers : ((c.entries t).flatMap fun e => (e.unit o).members) =
      ((c.entries t).flatMap (·.descriptors)).flatMap (·.members o) :=
    (List.flatMap_assoc).symm
  have hnames := List.pairwise_map.mp (c.entries_names_nodup t)
  rw [hmembers, List.pairwise_flatMap]
  generalize (c.entries t).flatMap (·.descriptors) = ds at hnames
  constructor
  · rintro ⟨-, hdistinct⟩ d hd e he
    have hclashes : ds.Pairwise fun d e => ¬ d.Clashes e ∧ ¬ e.Clashes d :=
      hnames.imp₂ (fun _ _ hne h => (Descriptor.distinct_iff o hne).mp h) hdistinct
    have hsymm : Std.Symm fun d e : Descriptor => ¬ d.Clashes e ∧ ¬ e.Clashes d :=
      ⟨fun _ _ => And.symm⟩
    have hself : ∀ d ∈ ds, ¬ d.Clashes d ∧ ¬ d.Clashes d :=
      fun d _ => ⟨d.not_clashes_self, d.not_clashes_self⟩
    exact (hclashes.forall_of_forall hself hd he).1
  · intro hclashes
    refine ⟨fun d _ => d.members_pairwise_distinct o, hnames.imp_of_mem ?_⟩
    intro d e hd he hne
    exact (Descriptor.distinct_iff o hne).mpr ⟨hclashes d hd e he, hclashes e he d hd⟩

end Compilation

end Bindable
