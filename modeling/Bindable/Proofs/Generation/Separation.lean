import Bindable.Proofs.Emission.Sources
import Bindable.Proofs.Marker.Reading
import Mathlib.Data.List.Perm.Basic

/-! Types are generated apart from each other. When further types are declared beside those of a
compilation, or its types are put into another order, every type keeps its sources and its
diagnostics, as long as no two names meet and the further types are no enums. -/

namespace Bindable

section Lists

variable {α β κ : Type} {l : List α}

theorem find?_key_eq_some_iff [DecidableEq κ] {key : α → κ} (h : (l.map key).Nodup) {k : κ}
    {a : α} : l.find? (fun x => key x = k) = some a ↔ a ∈ l ∧ key a = k := by
  constructor
  · intro ha
    exact ⟨List.mem_of_find?_eq_some ha, by simpa using List.find?_some ha⟩
  · rintro ⟨ha, hk⟩
    have hsome : (l.find? fun x => key x = k).isSome :=
      List.find?_isSome.mpr ⟨a, ha, by simpa using hk⟩
    obtain ⟨b, hb⟩ := Option.isSome_iff_exists.mp hsome
    have hkey : key b = k := by simpa using List.find?_some hb
    rw [hb, List.inj_on_of_nodup_map h (List.mem_of_find?_eq_some hb) ha (hkey.trans hk.symm)]

/-- What has been gathered from the members of a list is found again by the marks of one member,
if no two members share a mark. -/
theorem filter_flatMap_of_marks [DecidableEq κ] {gather : α → List β} {marks : α → List κ}
    {mark : β → κ} (hmarks : ∀ a, ∀ b ∈ gather a, mark b ∈ marks a)
    (hnodup : (l.flatMap marks).Nodup) {a : α} (ha : a ∈ l) :
    (l.flatMap gather).filter (fun b => mark b ∈ marks a) = gather a := by
  obtain ⟨before, after, rfl⟩ := List.append_of_mem ha
  rw [List.flatMap_append, List.flatMap_cons, List.nodup_append] at hnodup
  obtain ⟨-, hrest, hbefore⟩ := hnodup
  rw [List.nodup_append] at hrest
  obtain ⟨-, -, hafter⟩ := hrest
  have hnone : ∀ others : List α, (∀ x ∈ others, ∀ k ∈ marks x, k ∉ marks a) →
      (others.flatMap gather).filter (fun b => mark b ∈ marks a) = [] := by
    intro others hothers
    refine List.filter_eq_nil_iff.mpr fun b hb => ?_
    obtain ⟨x, hx, hb⟩ := List.mem_flatMap.mp hb
    simpa using hothers x hx _ (hmarks x b hb)
  have hown : (gather a).filter (fun b => mark b ∈ marks a) = gather a :=
    List.filter_eq_self.mpr fun b hb => by simpa using hmarks a b hb
  have hfirst : ∀ x ∈ before, ∀ k ∈ marks x, k ∉ marks a := fun x hx k hk hka =>
    hbefore k (List.mem_flatMap.mpr ⟨x, hx, hk⟩) k (List.mem_append_left _ hka) rfl
  have hlast : ∀ x ∈ after, ∀ k ∈ marks x, k ∉ marks a := fun x hx k hk hka =>
    hafter k hka k (List.mem_flatMap.mpr ⟨x, hx, hk⟩) rfl
  rw [List.flatMap_append, List.flatMap_cons, List.filter_append, List.filter_append,
    hnone before hfirst, hnone after hlast, hown, List.nil_append, List.append_nil]

end Lists

/-- The names that the sources of a type can have. -/
def TypeDeclaration.hintNames (t : TypeDeclaration) : List String :=
  [hintName t .onInstance, hintName t .attached]

/-- The sources that carry a name of the type. -/
def Output.sourcesOf (o : Output) (t : TypeDeclaration) : List SourceFile :=
  o.sources.filter fun f => f.hintName ∈ t.hintNames

namespace Compilation

/-- All names by which a type of the compilation can be looked up are different. -/
def HasDistinctKeys (c : Compilation) : Prop :=
  ((c.externalTypes ++ c.types).map (·.metadataName)).Nodup

/-- No two sources of the compilation can have one name. -/
def HasDistinctHints (c : Compilation) : Prop := (c.types.flatMap (·.hintNames)).Nodup

instance (c : Compilation) : Decidable c.HasDistinctKeys :=
  inferInstanceAs (Decidable (List.Nodup _))

instance (c : Compilation) : Decidable c.HasDistinctHints :=
  inferInstanceAs (Decidable (List.Nodup _))

/-- The second compilation has the types of the first one in any order, and perhaps more of them,
but no more enums. -/
structure Enlarges (c c' : Compilation) : Prop where
  externalTypes_eq : c'.externalTypes = c.externalTypes
  types_perm : ∃ more, (∀ t ∈ more, t.kind ≠ .enumType) ∧ c'.types.Perm (c.types ++ more)

def filesOf (c : Compilation) (o : Options) (t : TypeDeclaration) : List SourceFile :=
  (c.entries t).filterMap (·.sourceFile? o)

def reportsOf (c : Compilation) (t : TypeDeclaration) : List Diagnostic :=
  (c.entries t).flatMap (·.diagnostics)

section Names

variable {c : Compilation} {t u : TypeDeclaration} {r : TypeReference} {o : Options}

theorem lookup?_eq_some_iff_mem (h : c.HasDistinctKeys) : c.lookup? r = some u ↔
    (r.primitive.isSome || r.isTypeParameter) = false ∧ u ∈ c.externalTypes ++ c.types ∧
      u.metadataName = r.lookupName := by
  have hreverse : ((c.externalTypes ++ c.types).reverse.map (·.metadataName)).Nodup := by
    rw [List.map_reverse, List.nodup_reverse]
    exact h
  rw [lookup?_eq]
  split
  next hbuiltin => simp [hbuiltin]
  next hbuiltin =>
    rw [find?_key_eq_some_iff hreverse, List.mem_reverse]
    simp [hbuiltin]

def enumSymbol (u : TypeDeclaration) : EnumSymbol :=
  { declaration := u, underlying := u.underlying.getD (.integer .int),
    isFlags := u.hasAttribute "Flags" }

theorem enumOf?_eq (c : Compilation) (r : TypeReference) :
    c.enumOf? r = ((c.lookup? r).filter fun u => u.kind = .enumType).map enumSymbol := by
  rw [enumOf?]
  cases c.lookup? r with
  | none => rfl
  | some u => by_cases hu : u.kind = .enumType <;> simp [hu, Option.filter, enumSymbol]

theorem hintName_mem_of_mem_filesOf {f : SourceFile} (h : f ∈ c.filesOf o t) :
    f.hintName ∈ t.hintNames := by
  obtain ⟨e, he, hf⟩ := List.mem_filterMap.mp h
  obtain ⟨-, rfl⟩ := Entry.sourceFile?_eq_some.mp hf
  show hintName e.type e.family ∈ t.hintNames
  rw [type_of_mem_entries he]
  cases e.family <;> simp [TypeDeclaration.hintNames]

theorem hintNames_entries_sublist (c : Compilation) (t : TypeDeclaration) :
    ((c.entries t).map (·.hintName)).Sublist t.hintNames := by
  have h := (entries_sublist c t).map fun p => hintName p.1 p.2
  rw [List.map_map] at h
  exact h

/-- When no two sources can share a name, no source is dropped. -/
theorem emit_of_hasDistinctHints (h : c.HasDistinctHints) (o : Options) :
    c.emit o = { sources := c.types.flatMap (c.filesOf o)
                 diagnostics := c.types.flatMap c.reportsOf } := by
  have hsublist : (c.allEntries.map (·.hintName)).Sublist (c.types.flatMap (·.hintNames)) := by
    rw [allEntries, List.map_flatMap]
    induction c.types with
    | nil => exact .slnil
    | cons t types ih =>
      rw [List.flatMap_cons, List.flatMap_cons]
      exact (hintNames_entries_sublist c t).append ih
  have hnodup := (List.Nodup.sublist hsublist h).sublist (files_hintName_sublist o c.allEntries)
  rw [emit, firstByHint_eq_self hnodup, allEntries, List.filterMap_flatMap, List.flatMap_assoc]
  rfl

theorem sourcesOf_emit (h : c.HasDistinctHints) (ht : t ∈ c.types) (o : Options) :
    (c.emit o).sourcesOf t = c.filesOf o t := by
  rw [emit_of_hasDistinctHints h, Output.sourcesOf]
  exact filter_flatMap_of_marks (fun _ _ => hintName_mem_of_mem_filesOf) h ht

end Names

section Enlarges

variable {c c' : Compilation} {t : TypeDeclaration}

theorem Enlarges.mem_iff_of_enum (h : c.Enlarges c') (ht : t.kind = .enumType) :
    t ∈ c'.externalTypes ++ c'.types ↔ t ∈ c.externalTypes ++ c.types := by
  obtain ⟨more, hmore, hperm⟩ := h.types_perm
  have hnot : t ∉ more := fun hm => hmore t hm ht
  simp only [List.mem_append, h.externalTypes_eq, hperm.mem_iff, hnot, or_false]

theorem Enlarges.hasDistinctKeys (h : c.Enlarges c') (hkeys : c'.HasDistinctKeys) :
    c.HasDistinctKeys := by
  obtain ⟨more, -, hperm⟩ := h.types_perm
  have hall : (c'.externalTypes ++ c'.types).Perm (c.externalTypes ++ (c.types ++ more)) := by
    rw [h.externalTypes_eq]
    exact hperm.append_left _
  have hsublist := ((List.sublist_append_left c.types more).append_left c.externalTypes).map
    (·.metadataName)
  exact List.Nodup.sublist hsublist ((hall.map _).nodup_iff.mp hkeys)

theorem Enlarges.hasDistinctHints (h : c.Enlarges c') (hhints : c'.HasDistinctHints) :
    c.HasDistinctHints := by
  obtain ⟨more, -, hperm⟩ := h.types_perm
  have hall := (hperm.flatMap_right TypeDeclaration.hintNames).nodup_iff.mp hhints
  rw [List.flatMap_append] at hall
  exact List.Nodup.sublist (List.sublist_append_left _ _) hall

/-- Only enums are looked up, and these are the same. -/
theorem Enlarges.enumOf?_eq (h : c.Enlarges c') (hkeys : c'.HasDistinctKeys) (r : TypeReference) :
    c'.enumOf? r = c.enumOf? r := by
  have hfilter : (c'.lookup? r).filter (fun u => u.kind = .enumType) =
      (c.lookup? r).filter fun u => u.kind = .enumType := by
    apply Option.ext
    intro u
    rw [Option.filter_eq_some_iff, Option.filter_eq_some_iff, lookup?_eq_some_iff_mem hkeys,
      lookup?_eq_some_iff_mem (h.hasDistinctKeys hkeys)]
    by_cases hu : u.kind = .enumType
    · rw [h.mem_iff_of_enum hu]
    · simp [hu]
  rw [Compilation.enumOf?_eq, Compilation.enumOf?_eq, hfilter]

theorem Enlarges.entries_eq (h : c.Enlarges c') (hkeys : c'.HasDistinctKeys) :
    c'.entries = c.entries := by
  have hconvert : c'.convertDefault? = c.convertDefault? := by
    funext v r
    rw [convertDefault?, convertDefault?, h.enumOf?_eq hkeys]
  funext t
  have hread : c'.read t = c.read t := funext (read_congr hconvert t)
  rw [entries, entries]
  simp only [readings, hread]

end Enlarges

/-- The outputs of both compilations are made up type by type, in the order of their types, and
every type of the first one has the same share in both: the same sources, which are those with its
names, and the same diagnostics. -/
theorem runGenerator_enlarged {c c' : Compilation} (h : c.Enlarges c')
    (hkeys : c'.HasDistinctKeys) (hhints : c'.HasDistinctHints) (o : Options) :
    ∃ output output', c.runGenerator o false = .ok output ∧
      c'.runGenerator o false = .ok output' ∧
      output.sources = c.types.flatMap output.sourcesOf ∧
      output'.sources = c'.types.flatMap output'.sourcesOf ∧
      output.diagnostics = c.types.flatMap c.reportsOf ∧
      output'.diagnostics = c'.types.flatMap c'.reportsOf ∧
      ∀ t ∈ c.types, output'.sourcesOf t = output.sourcesOf t ∧
        output.sourcesOf t = c.filesOf o t ∧ c'.reportsOf t = c.reportsOf t := by
  have hhints₀ := h.hasDistinctHints hhints
  have hentries := h.entries_eq hkeys
  obtain ⟨more, -, hperm⟩ := h.types_perm
  have hsources : ∀ {d : Compilation}, d.HasDistinctHints →
      (d.emit o).sources = d.types.flatMap (d.emit o).sourcesOf := by
    intro d hd
    rw [List.flatMap_congr fun t ht => sourcesOf_emit hd ht o, emit_of_hasDistinctHints hd]
  refine ⟨c.emit o, c'.emit o, rfl, rfl, hsources hhints₀, hsources hhints, ?_, ?_,
    fun t ht => ⟨?_, sourcesOf_emit hhints₀ ht o, ?_⟩⟩
  · rw [emit_of_hasDistinctHints hhints₀]
  · rw [emit_of_hasDistinctHints hhints]
  · have ht' : t ∈ c'.types := hperm.mem_iff.mpr (List.mem_append_left _ ht)
    rw [sourcesOf_emit hhints₀ ht, sourcesOf_emit hhints ht', filesOf, filesOf, hentries]
  · rw [reportsOf, reportsOf, hentries]

def modeType : TypeDeclaration := { (default : TypeDeclaration) with
  namespaceName := some "Demo", name := "Mode", kind := .enumType, enumMembers := [⟨"On", 1⟩] }

/-- A type with a property of the enum. -/
def switchType : TypeDeclaration := { (default : TypeDeclaration) with
  namespaceName := some "Demo", name := "Switch", kind := .classType
  attributes := [{ (default : Attribute) with
    name := "BindableProperty", typeArguments := [modeType.reference], arguments := [.string "Mode"]
    namedArguments := [⟨"DefaultValue", .enumeration "Demo.Mode" 1⟩, ⟨"Visibility", .string ""⟩] }] }

/-- A type of another namespace with a marker of its own. -/
def otherSwitch : TypeDeclaration := { switchType with namespaceName := some "Other" }

def switches : Compilation := { types := [switchType, modeType] }

def moreSwitches : Compilation := { types := [otherSwitch, modeType, switchType] }

/-- The type has a source and a diagnostic, both of which it keeps. -/
theorem runGenerator_enlarged_switches :
    switches.Enlarges moreSwitches ∧ moreSwitches.HasDistinctKeys ∧
    moreSwitches.HasDistinctHints ∧ ((switches.emit {}).sourcesOf switchType).length = 1 ∧
    (switches.reportsOf switchType).length = 1 ∧
    (moreSwitches.emit {}).sourcesOf switchType = (switches.emit {}).sourcesOf switchType ∧
    moreSwitches.reportsOf switchType = switches.reportsOf switchType := by
  have henlarges : switches.Enlarges moreSwitches :=
    ⟨rfl, [otherSwitch], by decide, by decide +kernel⟩
  have hkeys : moreSwitches.HasDistinctKeys := by decide +kernel
  have hhints : moreSwitches.HasDistinctHints := by decide +kernel
  obtain ⟨output, output', hrun, hrun', -, -, -, -, hsame⟩ :=
    runGenerator_enlarged henlarges hkeys hhints {}
  obtain rfl : switches.emit {} = output := Except.ok.inj hrun
  obtain rfl : moreSwitches.emit {} = output' := Except.ok.inj hrun'
  obtain ⟨hsources, hfiles, hreports⟩ := hsame switchType List.mem_cons_self
  refine ⟨henlarges, hkeys, hhints, ?_, by decide +kernel, hsources, hreports⟩
  rw [hfiles]
  decide +kernel

end Compilation

end Bindable
