import Bindable.Marker.Descriptor
import Bindable.Proofs.Text.Cut

/-! How markers may be spelled. In front of the name of a marker there may be the global alias or a
qualification, the ending of attribute names may be there or not, and type arguments or an arity may
follow. These are the spellings of a marker, and no other name is one. -/

namespace Bindable

/-- Nothing, the global alias, or a text without brackets and arities that ends in a dot. -/
def IsQualifier (q : List Char) : Prop :=
  q = [] ∨ q = globalAlias.toList ∨ '<' ∉ q ∧ '\x60' ∉ q ∧ q.getLast? = some '.'

def attributeEnding : List Char := "Attribute".toList

/-- The name is the word between a qualifier and a generic part, perhaps with the ending. -/
def Spells (word name : String) : Prop :=
  ∃ q s g, name.toList = q ++ word.toList ++ s ++ g ∧ IsQualifier q ∧
    (s = [] ∨ s = attributeEnding) ∧ ∀ c ∈ g.head?, c = '<' ∨ c = '\x60'

def MarkerFamily.markerName : MarkerFamily → String
  | .onInstance => "BindableProperty"
  | .attached => "AttachedBindableProperty"

/-- A word that none of the cuts changes. -/
structure IsBaseName (word : List Char) : Prop where
  plain : ∀ c ∈ ['.', '<', '\x60', ':'], c ∉ word
  exists_notMem_alias : ∃ c ∈ word, c ∉ globalAlias.toList
  not_isSuffix : ¬ attributeEnding <:+ word

theorem MarkerFamily.isBaseName (f : MarkerFamily) : IsBaseName f.markerName.toList := by
  have hplain : '.' ∉ f.markerName.toList ∧ '<' ∉ f.markerName.toList ∧
      '\x60' ∉ f.markerName.toList ∧ ':' ∉ f.markerName.toList := by
    cases f <;> decide
  have hmarker : 'P' ∈ f.markerName.toList ∧ ¬ attributeEnding <:+ f.markerName.toList := by
    cases f <;> decide
  exact ⟨by simpa using hplain, ⟨'P', hmarker.1, by decide⟩, hmarker.2⟩

def isInName (c : Char) : Bool := c != '<' && c != '\x60'

def withoutEnding (s : List Char) : List Char :=
  match attributeEnding.isSuffixOf? s with
  | some (c :: cs) => c :: cs
  | _ => s

section Cuts

variable {s q t v w g word : List Char} {c : Char}

theorem toList_simpleName (name : String) : (simpleName name).toList =
    withoutEnding (Text.afterLast '.'
      ((Text.dropLeading globalAlias.toList name.toList).takeWhile isInName)) := by
  have hcut : ∀ u : List Char, String.toList (match attributeEnding.isSuffixOf? u with
      | some (c :: cs) => String.ofList (c :: cs)
      | _ => String.ofList u) = withoutEnding u := by
    intro u
    rw [withoutEnding]
    split <;> exact String.toList_ofList
  exact hcut _

theorem isInName_eq_false_iff : isInName c = false ↔ c = '<' ∨ c = '\x60' := by
  simp [isInName, ← Decidable.or_iff_not_imp_left]

theorem withoutEnding_eq_iff (hw : IsBaseName word) :
    withoutEnding s = word ↔ s = word ∨ s = word ++ attributeEnding := by
  rw [withoutEnding]
  constructor
  · intro h
    split at h
    next cs hending =>
      subst h
      exact .inr (List.isSuffixOf?_eq_some_iff_append_eq.mp hending).symm
    next => exact .inl h
  · rintro (rfl | rfl)
    · have hnone : attributeEnding.isSuffixOf? s = none := by
        rw [Option.eq_none_iff_forall_ne_some]
        intro rest hrest
        exact hw.not_isSuffix ⟨rest, List.isSuffixOf?_eq_some_iff_append_eq.mp hrest⟩
      rw [hnone]
    · obtain ⟨c, hc, -⟩ := hw.exists_notMem_alias
      obtain ⟨c, cs, rfl⟩ := List.exists_cons_of_ne_nil (List.ne_nil_of_mem hc)
      rw [List.isSuffixOf?_eq_some_iff_append_eq.mpr rfl]

/-- The qualification of a name, which may be missing. -/
def IsPath (path : List Char) : Prop :=
  '<' ∉ path ∧ '\x60' ∉ path ∧ ∀ c ∈ path.getLast?, c = '.'

/-- What is cut out stands between the last dot and the first bracket. -/
theorem afterLast_takeWhile_eq_iff (hw : ∀ c ∈ ['.', '<', '\x60'], c ∉ w) :
    Text.afterLast '.' (v.takeWhile isInName) = w ↔
      ∃ path g, v = path ++ w ++ g ∧ IsPath path ∧ ∀ c ∈ g.head?, c = '<' ∨ c = '\x60' := by
  rw [Text.afterLast_eq_iff]
  constructor
  · rintro ⟨-, path, hpath, hlast⟩
    obtain ⟨hplain, g, hv, hg⟩ := Text.takeWhile_eq_iff.mp hpath
    have hpathPlain : ∀ c ∈ path, isInName c := fun c hc => hplain c (List.mem_append_left _ hc)
    refine ⟨path, g, hv, ⟨fun h => ?_, fun h => ?_, hlast⟩,
      fun c hc => isInName_eq_false_iff.mp (hg c hc)⟩
    · exact absurd (hpathPlain _ h) (by decide)
    · exact absurd (hpathPlain _ h) (by decide)
  · rintro ⟨path, g, rfl, ⟨hopen, htick, hlast⟩, hg⟩
    have hwOpen : '<' ∉ w := hw '<' (by simp)
    have hwTick : '\x60' ∉ w := hw '\x60' (by simp)
    refine ⟨hw '.' (by simp), path, Text.takeWhile_eq_iff.mpr ⟨fun c hc => ?_, g, rfl,
      fun c hc => isInName_eq_false_iff.mpr (hg c hc)⟩, hlast⟩
    by_contra hcut
    rw [Bool.not_eq_true, isInName_eq_false_iff] at hcut
    rcases List.mem_append.mp hc with hc | hc <;> rcases hcut with rfl | rfl
    · exact hopen hc
    · exact htick hc
    · exact hwOpen hc
    · exact hwTick hc

theorem not_alias_isPrefix_append (h : ¬ globalAlias.toList <+: s)
    (hs : ∃ c ∈ s, c ∉ globalAlias.toList) (t : List Char) :
    ¬ globalAlias.toList <+: s ++ t := by
  intro halias
  obtain ⟨c, hc, hnot⟩ := hs
  rcases List.prefix_or_prefix_of_prefix halias (List.prefix_append s t) with hstarts | hstarts
  · exact h hstarts
  · exact hnot (hstarts.subset hc)

/-- The alias and a qualification together are a qualifier, and so is each of them. -/
theorem IsPath.isQualifier (h : IsPath q) : IsQualifier q ∧ IsQualifier (globalAlias.toList ++ q) := by
  obtain ⟨hopen, htick, hlast⟩ := h
  by_cases hq : q = []
  · subst hq
    exact ⟨.inl rfl, .inr (.inl (List.append_nil _))⟩
  have hdot : q.getLast? = some '.' := by
    rw [List.getLast?_eq_some_getLast hq]
    exact congrArg some (hlast _ (List.getLast?_eq_some_getLast hq))
  have hplain : '<' ∉ globalAlias.toList ∧ '\x60' ∉ globalAlias.toList := by decide
  refine ⟨.inr (.inr ⟨hopen, htick, hdot⟩), .inr (.inr ⟨?_, ?_, ?_⟩)⟩
  · exact fun hmem => (List.mem_append.mp hmem).elim hplain.1 hopen
  · exact fun hmem => (List.mem_append.mp hmem).elim hplain.2 htick
  · rw [List.getLast?_append, hdot]
    rfl

/-- Of a qualifier a qualification is left when the alias is dropped. -/
theorem IsQualifier.exists_path (h : IsQualifier q) (hw : ':' ∉ w)
    (hnot : ∃ c ∈ w, c ∉ globalAlias.toList) :
    ∃ path, IsPath path ∧
      ∀ g, Text.dropLeading globalAlias.toList (q ++ w ++ g) = path ++ w ++ g := by
  have hcolon : ':' ∈ globalAlias.toList := by decide
  rcases h with rfl | rfl | ⟨hopen, htick, hlast⟩
  · have halias : ¬ globalAlias.toList <+: w := fun hstarts => hw (hstarts.subset hcolon)
    exact ⟨[], by simp [IsPath],
      fun g => Text.dropLeading_eq_self (not_alias_isPrefix_append halias hnot g)⟩
  · refine ⟨[], by simp [IsPath], fun g => ?_⟩
    rw [List.append_assoc, Text.dropLeading_append]
    rfl
  by_cases hstarts : globalAlias.toList <+: q
  · obtain ⟨path, rfl⟩ := hstarts
    have hpath : path.getLast? = some '.' := by
      rw [List.getLast?_append] at hlast
      cases hl : path.getLast? with
      | none => simp [hl, globalAlias] at hlast
      | some c => simpa [hl] using hlast
    refine ⟨path, ⟨fun hmem => hopen (List.mem_append_right _ hmem),
      fun hmem => htick (List.mem_append_right _ hmem), by simp [hpath]⟩, fun g => ?_⟩
    rw [List.append_assoc, List.append_assoc, Text.dropLeading_append, List.append_assoc]
  · have hdot : '.' ∈ q ∧ '.' ∉ globalAlias.toList :=
      ⟨List.mem_of_getLast? hlast, by decide⟩
    refine ⟨q, ⟨hopen, htick, by simp [hlast]⟩, fun g => ?_⟩
    rw [List.append_assoc]
    exact Text.dropLeading_eq_self (not_alias_isPrefix_append hstarts ⟨'.', hdot⟩ _)

end Cuts

theorem simpleName_eq_iff {word : String} (hword : IsBaseName word.toList) (name : String) :
    simpleName name = word ↔ Spells word name := by
  have hplain : ∀ w, w = word.toList ∨ w = word.toList ++ attributeEnding →
      ∀ c ∈ ['.', '<', '\x60', ':'], c ∉ w := by
    have hending : ∀ c ∈ ['.', '<', '\x60', ':'], c ∉ attributeEnding := by
      simp only [List.forall_mem_cons, List.not_mem_nil, false_imp_iff, implies_true, and_true]
      decide
    rintro w (rfl | rfl) c hc hmem
    · exact hword.plain c hc hmem
    · exact (List.mem_append.mp hmem).elim (hword.plain c hc) (hending c hc)
  rw [← String.toList_inj, toList_simpleName, withoutEnding_eq_iff hword]
  constructor
  · intro h
    obtain ⟨w, hcut, hw⟩ : ∃ w, Text.afterLast '.' ((Text.dropLeading globalAlias.toList
        name.toList).takeWhile isInName) = w ∧
        (w = word.toList ∨ w = word.toList ++ attributeEnding) := ⟨_, rfl, h⟩
    have hcuts : ∀ c ∈ ['.', '<', '\x60'], c ∉ w := fun c hc =>
      hplain w hw c (List.mem_append_left [':'] hc)
    obtain ⟨path, g, hname, hpath, hg⟩ := (afterLast_takeWhile_eq_iff hcuts).mp hcut
    obtain ⟨s, hs, rfl⟩ : ∃ s, (s = [] ∨ s = attributeEnding) ∧ w = word.toList ++ s := by
      rcases hw with rfl | rfl
      · exact ⟨[], .inl rfl, (List.append_nil _).symm⟩
      · exact ⟨attributeEnding, .inr rfl, rfl⟩
    by_cases halias : globalAlias.toList <+: name.toList
    · obtain ⟨rest, hrest⟩ := halias
      rw [← hrest, Text.dropLeading_append] at hname
      refine ⟨globalAlias.toList ++ path, s, g, ?_, hpath.isQualifier.2, hs, hg⟩
      rw [← hrest, hname]
      simp only [List.append_assoc]
    · rw [Text.dropLeading_eq_self halias] at hname
      refine ⟨path, s, g, ?_, hpath.isQualifier.1, hs, hg⟩
      rw [hname]
      simp only [List.append_assoc]
  · rintro ⟨q, s, g, hname, hq, hs, hg⟩
    have hw : word.toList ++ s = word.toList ∨ word.toList ++ s = word.toList ++ attributeEnding := by
      rcases hs with rfl | rfl
      · exact .inl (List.append_nil _)
      · exact .inr rfl
    obtain ⟨c, hc, hnot⟩ := hword.exists_notMem_alias
    obtain ⟨path, hpath, hdrop⟩ := hq.exists_path (hplain _ hw ':' (by simp))
      ⟨c, List.mem_append_left _ hc, hnot⟩
    have hcuts : ∀ c ∈ ['.', '<', '\x60'], c ∉ word.toList ++ s := fun c hc =>
      hplain _ hw c (List.mem_append_left [':'] hc)
    have hcut : Text.afterLast '.' ((Text.dropLeading globalAlias.toList name.toList).takeWhile
        isInName) = word.toList ++ s := by
      rw [hname, List.append_assoc q, hdrop]
      exact (afterLast_takeWhile_eq_iff hcuts).mpr ⟨path, g, rfl, hpath, hg⟩
    rwa [hcut]

/-- An attribute is a marker of a family exactly in the spellings of the family's name. -/
theorem Attribute.family?_eq_some_iff_spells (a : Attribute) (f : MarkerFamily) :
    a.family? = some f ↔ Spells f.markerName a.name := by
  rw [← simpleName_eq_iff f.isBaseName, Attribute.family?, Attribute.simpleName]
  have hdifferent : "AttachedBindableProperty" ≠ "BindableProperty" := by decide
  by_cases hinstance : Bindable.simpleName a.name = "BindableProperty"
  · cases f <;> simp [hinstance, MarkerFamily.markerName]
  · cases f <;> simp [hinstance, MarkerFamily.markerName]

example : simpleName "global::Demo.BindablePropertyAttribute<Demo.Mode<int>>" = "BindableProperty" := by
  decide

end Bindable
