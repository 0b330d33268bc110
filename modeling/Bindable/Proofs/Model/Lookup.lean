import Bindable.Model.Symbols
import Bindable.Proofs.Emission.HintName
import Mathlib.Data.List.Nodup

/-! Types looked up by their own references. A reference is cut where its first type parameters
begin, so that it reaches the outermost generic type around a declaration, and of the declarations
with one dotted name it reaches the last. -/

namespace Bindable

/-- The names of a chain up to the first that has type parameters. -/
def namesToGeneric : List (String × Nat) → List String
  | [] => []
  | (name, arity) :: rest => name :: if arity = 0 then namesToGeneric rest else []

theorem namesToGeneric_append_ne_nil (l : List (String × Nat)) (s : String × Nat) :
    namesToGeneric (l ++ [s]) ≠ [] := by
  cases l <;> simp [namesToGeneric]

theorem namesToGeneric_append_singleton (l : List (String × Nat)) (s : String × Nat)
    (hl : ∀ x ∈ l, x.2 = 0) : namesToGeneric (l ++ [s]) = l.map (·.1) ++ [s.1] := by
  induction l with
  | nil => simp [namesToGeneric]
  | cons x l ih =>
    obtain ⟨name, arity⟩ := x
    have hx : arity = 0 := hl _ List.mem_cons_self
    have ih := ih fun y hy => hl y (List.mem_cons_of_mem _ hy)
    simp [namesToGeneric, hx, ih]

theorem namesToGeneric_isPrefix (l : List (String × Nat)) :
    namesToGeneric l <+: l.map (·.1) := by
  induction l with
  | nil => exact List.prefix_rfl
  | cons x l ih =>
    rw [namesToGeneric, List.map_cons, List.prefix_cons_inj]
    split
    · exact ih
    · exact List.nil_prefix

theorem length_namesToGeneric_le {l : List (String × Nat)} {s : String × Nat}
    (hl : ∃ x ∈ l, x.2 ≠ 0) : (namesToGeneric (l ++ [s])).length ≤ l.length := by
  induction l with
  | nil => simp at hl
  | cons x l ih =>
    by_cases hx : x.2 = 0
    · obtain ⟨y, hy, hne⟩ := hl
      have hy : y ∈ l := (List.mem_cons.mp hy).resolve_left fun he => hne (he ▸ hx)
      have ih := ih ⟨y, hy, hne⟩
      simp only [List.cons_append, namesToGeneric, hx, if_true, List.length_cons]
      omega
    · simp [namesToGeneric, hx]

theorem parameterList_head? (params : List String) :
    ∀ x ∈ (parameterList params).toList.head?, x = '<' := by
  have hopen : "<".toList = ['<'] := rfl
  by_cases h : params = []
  · simp [parameterList, h]
  · simp [parameterList, h, hopen]

/-- The text of the levels, cut at the first angle bracket. -/
theorem takeWhile_levels (enclosing : List EnclosingType) (name : String) (params : List String)
    (henclosing : ∀ e ∈ enclosing, '<' ∉ e.name.toList) (hname : '<' ∉ name.toList) :
    (enclosing.flatMap (fun e =>
        e.name.toList ++ (parameterList e.typeParameters).toList ++ ['.']) ++
      (name.toList ++ (parameterList params).toList)).takeWhile (· != '<') =
    ['.'].intercalate ((namesToGeneric
      (enclosing.map (fun e => (e.name, e.typeParameters.length)) ++
        [(name, params.length)])).map String.toList) := by
  induction enclosing with
  | nil =>
    rw [List.flatMap_nil, List.nil_append,
      Text.takeWhile_ne_append hname (parameterList_head? params)]
    simp [namesToGeneric]
  | cons e rest ih =>
    have he := henclosing e List.mem_cons_self
    have ih := ih fun x hx => henclosing x (List.mem_cons_of_mem _ hx)
    rw [List.flatMap_cons, List.append_assoc, List.append_assoc, List.append_assoc]
    by_cases hgeneric : e.typeParameters = []
    · -- Without type parameters the text goes on behind the dot.
      have hplain : (parameterList e.typeParameters).toList = [] := by
        simp [parameterList, hgeneric]
      have hpos : ∀ x ∈ e.name.toList ++ ['.'], (x != '<') = true := by
        intro x hx
        rcases List.mem_append.mp hx with hx | hx
        · exact bne_iff_ne.mpr fun h => he (h ▸ hx)
        · exact bne_iff_ne.mpr fun h => absurd (h ▸ List.mem_singleton.mp hx) (by decide)
      rw [hplain, List.nil_append, ← List.append_assoc, List.takeWhile_append_of_pos hpos, ih]
      have hnames : namesToGeneric ((e :: rest).map (fun e => (e.name, e.typeParameters.length)) ++
          [(name, params.length)]) = e.name :: namesToGeneric
            (rest.map (fun e => (e.name, e.typeParameters.length)) ++ [(name, params.length)]) := by
        simp [namesToGeneric, hgeneric]
      rw [hnames, List.map_cons, List.intercalate_cons_of_ne_nil
        (mt List.map_eq_nil_iff.mp (namesToGeneric_append_ne_nil _ _))]
    · have hbracket : ∀ x ∈ ((parameterList e.typeParameters).toList ++ (['.'] ++
          (rest.flatMap (fun e =>
            e.name.toList ++ (parameterList e.typeParameters).toList ++ ['.']) ++
          (name.toList ++ (parameterList params).toList)))).head?, x = '<' := by
        obtain ⟨x, xs, hx⟩ := List.exists_cons_of_ne_nil
          (l := (parameterList e.typeParameters).toList) (by simp [parameterList, hgeneric])
        have hhead := parameterList_head? e.typeParameters
        rw [hx] at hhead ⊢
        exact hhead
      rw [Text.takeWhile_ne_append he hbracket]
      simp [namesToGeneric, hgeneric]

namespace TypeDeclaration

/-- The characters that a reference gives a meaning to occur in no name, up to the dots between the
parts of a namespace. -/
structure HasSimpleNames (t : TypeDeclaration) : Prop where
  names : ∀ s ∈ t.chain, '.' ∉ s.1.toList ∧ '<' ∉ s.1.toList ∧ ':' ∉ s.1.toList
  namespaceName : ∀ n ∈ t.namespace?, '<' ∉ n.toList ∧ ':' ∉ n.toList

instance : DecidablePred HasSimpleNames := fun t =>
  decidable_of_iff ((∀ s ∈ t.chain, '.' ∉ s.1.toList ∧ '<' ∉ s.1.toList ∧ ':' ∉ s.1.toList) ∧
      ∀ n ∈ t.namespace?, '<' ∉ n.toList ∧ ':' ∉ n.toList)
    ⟨fun ⟨hnames, hnamespace⟩ => ⟨hnames, hnamespace⟩, fun h => ⟨h.names, h.namespaceName⟩⟩

/-- The dotted name of the outermost generic type of a chain, or of the type itself. -/
def nameToGeneric (t : TypeDeclaration) : String :=
  ".".intercalate (t.namespace?.toList ++ namesToGeneric t.chain)

/-- No type around it has type parameters. -/
def HasPlainEnclosing (t : TypeDeclaration) : Prop := ∀ e ∈ t.enclosing, e.typeParameters = []

instance (t : TypeDeclaration) : Decidable t.HasPlainEnclosing :=
  inferInstanceAs (Decidable (∀ e ∈ t.enclosing, e.typeParameters = []))

variable {t : TypeDeclaration}

theorem toList_qualifiedName (t : TypeDeclaration) : t.qualifiedName.toList =
    globalAlias.toList ++ (t.qualification.toList ++ (t.enclosing.flatMap (fun e =>
        e.name.toList ++ (parameterList e.typeParameters).toList ++ ['.']) ++
      (t.name.toList ++ (parameterList t.typeParameters).toList))) := by
  have hdot : ".".toList = ['.'] := rfl
  simp only [qualifiedName, String.toList_append, String.toList_join, List.flatMap_map, hdot,
    List.append_assoc]

theorem lookupName_reference (h : t.HasSimpleNames) : t.reference.lookupName = t.nameToGeneric := by
  have hchain : ∀ s ∈ t.chain, '<' ∉ s.1.toList := fun s hs => (h.names s hs).2.1
  have henclosing : ∀ e ∈ t.enclosing, '<' ∉ e.name.toList := fun e he =>
    hchain (e.name, e.typeParameters.length)
      (List.mem_append_left _ (List.mem_map.mpr ⟨e, he, rfl⟩))
  have hname : '<' ∉ t.name.toList :=
    hchain _ (List.mem_append_right _ (List.mem_singleton_self _))
  have hcut := List.isPrefixOf?_eq_some_iff_append_eq.mpr (t.toList_qualifiedName).symm
  have hlevels := takeWhile_levels t.enclosing t.name t.typeParameters henclosing hname
  rw [← String.toList_inj, TypeReference.lookupName, reference, hcut, Option.getD_some,
    String.toList_ofList, nameToGeneric, String.toList_intercalate, toList_qualification]
  cases hn : t.namespace? with
  | none => exact hlevels
  | some n =>
    have hfree : ∀ x ∈ n.toList ++ ['.'], (x != '<') = true := by
      intro x hx
      rcases List.mem_append.mp hx with hx | hx
      · exact bne_iff_ne.mpr fun he => (h.namespaceName n hn).1 (he ▸ hx)
      · exact bne_iff_ne.mpr fun he => absurd (he ▸ List.mem_singleton.mp hx) (by decide)
    have hne : (namesToGeneric t.chain).map String.toList ≠ [] :=
      mt List.map_eq_nil_iff.mp (namesToGeneric_append_ne_nil _ _)
    rw [List.takeWhile_append_of_pos hfree, hlevels, ← chain, Option.toList_some,
      List.singleton_append, List.map_cons, List.intercalate_cons_of_ne_nil hne]
    rfl

theorem nameToGeneric_eq_metadataName (h : t.HasPlainEnclosing) :
    t.nameToGeneric = t.metadataName := by
  have hplain : ∀ x ∈ t.enclosing.map (fun e => (e.name, e.typeParameters.length)), x.2 = 0 := by
    intro x hx
    obtain ⟨e, he, rfl⟩ := List.mem_map.mp hx
    simp [h e he]
  rw [nameToGeneric, chain, namesToGeneric_append_singleton _ _ hplain, metadataName,
    List.append_assoc, List.map_map]
  rfl

theorem nameToGeneric_ne_metadataName (h : ¬t.HasPlainEnclosing) :
    t.nameToGeneric ≠ t.metadataName := by
  have hgeneric : ∃ x ∈ t.enclosing.map (fun e => (e.name, e.typeParameters.length)), x.2 ≠ 0 := by
    simpa [HasPlainEnclosing] using h
  obtain ⟨below, hbelow⟩ := namesToGeneric_isPrefix t.chain
  have hbelow_ne : below ≠ [] := by
    rintro rfl
    have hle := length_namesToGeneric_le (s := (t.name, t.typeParameters.length)) hgeneric
    have hlength := congrArg List.length hbelow
    simp only [chain, List.append_nil, List.length_map, List.length_append,
      List.length_singleton] at hlength hle
    omega
  have hnames : t.namespace?.toList ++ t.enclosing.map (·.name) ++ [t.name] =
      (t.namespace?.toList ++ namesToGeneric t.chain) ++ below := by
    rw [List.append_assoc _ _ below, hbelow, chain, List.map_append, List.map_map,
      List.append_assoc]
    rfl
  have hne : t.namespace?.toList ++ namesToGeneric t.chain ≠ [] :=
    List.append_ne_nil_of_right_ne_nil _ (namesToGeneric_append_ne_nil _ _)
  intro he
  have hlength := congrArg String.length he
  rw [metadataName, hnames, String.intercalate_append_of_ne_nil hne hbelow_ne, nameToGeneric]
    at hlength
  simp only [String.length_append] at hlength
  have hdot : ".".length = 1 := rfl
  omega

end TypeDeclaration

namespace Compilation

variable {c : Compilation} {d : Origin × TypeDeclaration}
  {before after : List (Origin × TypeDeclaration)}

theorem locate?_reference (h : d.2.HasSimpleNames) : c.locate? d.2.reference =
    c.declarations.reverse.find? fun u => u.2.metadataName = d.2.nameToGeneric := by
  rw [← TypeDeclaration.lookupName_reference h]
  rfl

theorem locate?_reference_eq_some (hid : (c.declarations.map (·.2.identity)).Nodup)
    (h : d.2.HasSimpleNames) (hd : c.declarations = before ++ d :: after) :
    c.locate? d.2.reference = some d ↔
      d.2.HasPlainEnclosing ∧ ∀ u ∈ after, u.2.metadataName ≠ d.2.metadataName := by
  have hreverse : c.declarations.reverse = after.reverse ++ d :: before.reverse := by
    simp [hd]
  rw [locate?_reference h, hreverse, List.find?_append]
  constructor
  · intro hfound
    have hkey : d.2.metadataName = d.2.nameToGeneric := by
      simpa using List.find?_some ((List.find?_append ..).trans hfound)
    have hplain : d.2.HasPlainEnclosing := by
      by_contra hgeneric
      exact TypeDeclaration.nameToGeneric_ne_metadataName hgeneric hkey.symm
    refine ⟨hplain, fun u hu he => ?_⟩
    -- A later declaration of the name would have been found, and it is another one.
    have hhit : (after.reverse.find? fun u => u.2.metadataName = d.2.nameToGeneric).isSome :=
      List.find?_isSome.mpr ⟨u, List.mem_reverse.mpr hu, by simpa using he.trans hkey⟩
    obtain ⟨v, hv⟩ := Option.isSome_iff_exists.mp hhit
    rw [hv, Option.some_or, Option.some.injEq] at hfound
    have hmem : d ∈ after := List.mem_reverse.mp (hfound ▸ List.mem_of_find?_eq_some hv)
    have hnodup : (before ++ d :: after).Nodup := hd ▸ List.Nodup.of_map _ hid
    exact (List.nodup_cons.mp (hnodup.sublist (List.sublist_append_right _ _))).1 hmem
  · rintro ⟨hplain, hlast⟩
    have hkey := TypeDeclaration.nameToGeneric_eq_metadataName hplain
    have hnone : after.reverse.find? (fun u => u.2.metadataName = d.2.nameToGeneric) = none := by
      rw [List.find?_eq_none]
      intro u hu
      simpa [hkey] using hlast u (List.mem_reverse.mp hu)
    rw [hnone, Option.none_or, List.find?_cons_of_pos (by simp [hkey])]

theorem lookup?_eq_some_iff (hid : (c.declarations.map (·.2.identity)).Nodup)
    (hd : d ∈ c.declarations) (t : TypeReference) :
    c.lookup? t = some d.2 ↔ c.locate? t = some d := by
  rw [lookup?]
  constructor
  · intro h
    obtain ⟨u, hu, he⟩ := Option.map_eq_some_iff.mp h
    have hmem : u ∈ c.declarations := by
      have hkey := hu
      rw [locate?] at hkey
      split at hkey
      · contradiction
      · exact List.mem_reverse.mp (List.mem_of_find?_eq_some hkey)
    rw [hu, List.inj_on_of_nodup_map hid hmem hd (congrArg TypeDeclaration.identity he)]
  · intro h
    rw [h, Option.map_some]

theorem enumOf?_declaration (c : Compilation) (t : TypeReference) :
    (c.enumOf? t).map (·.declaration) = (c.lookup? t).filter fun d => d.kind = .enumType := by
  rw [enumOf?]
  cases c.lookup? t with
  | none => rfl
  | some u => by_cases hu : u.kind = .enumType <;> simp [hu, Option.filter]

/-- A reference leads to the last declaration with the name of the outermost generic type in its
chain. So a type is found under its own reference just when no type around it is generic and no
later declaration has its dotted name, and an enum is resolved just then. -/
theorem lookup?_reference_iff (hid : (c.declarations.map (·.2.identity)).Nodup)
    (hnames : ∀ u ∈ c.declarations, u.2.HasSimpleNames)
    (hd : c.declarations = before ++ d :: after) :
    (c.lookup? d.2.reference = some d.2 ↔
      d.2.HasPlainEnclosing ∧ ∀ u ∈ after, u.2.metadataName ≠ d.2.metadataName) ∧
    (d.2.kind = .enumType → ((c.enumOf? d.2.reference).map (·.declaration) = some d.2 ↔
      d.2.HasPlainEnclosing ∧ ∀ u ∈ after, u.2.metadataName ≠ d.2.metadataName)) ∧
    c.locate? d.2.reference =
      c.declarations.reverse.find? fun u => u.2.metadataName = d.2.nameToGeneric := by
  have hmem : d ∈ c.declarations := by simp [hd]
  have hfound : c.lookup? d.2.reference = some d.2 ↔
      d.2.HasPlainEnclosing ∧ ∀ u ∈ after, u.2.metadataName ≠ d.2.metadataName := by
    rw [lookup?_eq_some_iff hid hmem, locate?_reference_eq_some hid (hnames d hmem) hd]
  refine ⟨hfound, fun henum => ?_, locate?_reference (hnames d hmem)⟩
  rw [enumOf?_declaration, ← hfound, Option.filter_eq_some_iff]
  simp [henum]

def panel : TypeDeclaration := { (default : TypeDeclaration) with
  namespaceName := some "Demo", name := "Panel" }

def genericPanel : TypeDeclaration := { panel with typeParameters := ["T"] }

/-- An enum inside the generic one of the two types. -/
def panelMode : TypeDeclaration := { (default : TypeDeclaration) with
  namespaceName := some "Demo", name := "Mode", kind := .enumType
  enclosing := [{ name := "Panel", kind := .classType, typeParameters := ["T"] }] }

def twoPanels : Compilation := { types := [panel, genericPanel, panelMode] }

/-- The reference to the enum leads to the type around it, the one to the type without parameters to
the generic one. -/
theorem lookup?_reference_iff_twoPanels :
    (twoPanels.declarations.map (·.2.identity)).Nodup ∧
    (∀ u ∈ twoPanels.declarations, u.2.HasSimpleNames) ∧
    twoPanels.lookup? panelMode.reference ≠ some panelMode ∧
    (twoPanels.enumOf? panelMode.reference).map (·.declaration) ≠ some panelMode ∧
    twoPanels.lookup? panel.reference ≠ some panel ∧
    twoPanels.lookup? genericPanel.reference = some genericPanel := by
  have hid : (twoPanels.declarations.map (·.2.identity)).Nodup := by decide
  have hnames : ∀ u ∈ twoPanels.declarations, u.2.HasSimpleNames := by decide
  have hmode : twoPanels.declarations =
    [(.source 0, panel), (.source 1, genericPanel)] ++ (.source 2, panelMode) :: [] := rfl
  have hpanel : twoPanels.declarations =
    [] ++ (.source 0, panel) :: [(.source 1, genericPanel), (.source 2, panelMode)] := rfl
  have hgeneric : twoPanels.declarations =
    [(.source 0, panel)] ++ (.source 1, genericPanel) :: [(.source 2, panelMode)] := rfl
  obtain ⟨hfound, henum, -⟩ := lookup?_reference_iff hid hnames hmode
  refine ⟨hid, hnames, mt hfound.mp (by decide), mt (henum rfl).mp (by decide), ?_, ?_⟩
  · exact mt (lookup?_reference_iff hid hnames hpanel).1.mp (by decide)
  · exact (lookup?_reference_iff hid hnames hgeneric).1.mpr (by decide)

end Compilation

end Bindable
