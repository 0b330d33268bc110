import Bindable.Proofs.Emission.Gathering
import Bindable.Proofs.Marker.Settings
import Mathlib.Data.List.Induction
import Mathlib.Data.Nat.Find

/-! Which of several markers for one name is kept. Instance markers are gone through before attached
ones, each family in declaration order; the first marker that asks for a name has it, and every
other one is reported as a duplicate. The one that is kept is not the first in declaration order
where an attached marker stands before the instance markers for its name. -/

namespace Bindable

def duplicates (ds : List Diagnostic) : Nat := ds.countP fun r => r.id = .duplicatePropertyName

namespace TypeDeclaration

/-- The family of the marker at a place of the declaration order. -/
def familyAt? (t : TypeDeclaration) (i : Nat) : Option MarkerFamily :=
  t.occurrences[i]?.bind (·.family?)

def placesOf (t : TypeDeclaration) (f : MarkerFamily) : List Nat :=
  (List.range t.occurrences.length).filter fun i => t.familyAt? i = some f

/-- The marker at the one place is gone through before the marker at the other. -/
def Precedes (t : TypeDeclaration) (i j : Nat) : Prop :=
  t.familyAt? i = some .onInstance ∧ t.familyAt? j = some .attached ∨
    t.familyAt? i = t.familyAt? j ∧ i < j

instance (t : TypeDeclaration) (i j : Nat) : Decidable (t.Precedes i j) :=
  inferInstanceAs (Decidable (_ ∨ _))

variable {t : TypeDeclaration} {i j : Nat}

theorem precedes_instance_iff (h : t.familyAt? j = some .onInstance) :
    t.Precedes i j ↔ t.familyAt? i = some .onInstance ∧ i < j := by
  simp [Precedes, h]

theorem precedes_attached_iff (h : t.familyAt? j = some .attached) :
    t.Precedes i j ↔
      t.familyAt? i = some .onInstance ∨ t.familyAt? i = some .attached ∧ i < j := by
  simp [Precedes, h]

end TypeDeclaration

namespace Compilation

def readingAt (c : Compilation) (t : TypeDeclaration) (i : Nat) : Reading :=
  (t.occurrences[i]?.map (c.read t)).getD .nothing

/-- The marker at a place is read to a property of the name. -/
def Asks (c : Compilation) (t : TypeDeclaration) (i : Nat) (name : String) : Prop :=
  ∃ d, (c.readingAt t i).descriptor = some d ∧ d.name = name

/-- The names of the markers that are gone through before the one at a place. -/
def namesBefore (c : Compilation) (t : TypeDeclaration) (i : Nat) : List String :=
  ((List.range t.occurrences.length).filter fun j => t.Precedes j i).filterMap fun j =>
    (c.readingAt t j).descriptor.map (·.name)

/-- What the marker at a place brings in. -/
def outcome (c : Compilation) (t : TypeDeclaration) (i : Nat) : Gathered :=
  .add t (c.namesBefore t i) {} (c.readingAt t i)

/-- What is kept under a name is read from the first marker in declaration order that asks for it,
and every later one is reported as a duplicate once. -/
def FirstDeclarationWins (c : Compilation) (t : TypeDeclaration) (name : String) : Prop :=
  ∀ d ∈ (c.entries t).flatMap (·.descriptors), d.name = name →
    ∃ i, (c.readingAt t i).descriptor = some d ∧ (∀ j < i, ¬ c.Asks t j name) ∧
      ∀ j > i, c.Asks t j name → duplicates (c.outcome t j).diagnostics = 1

/-- An attached marker is the first in declaration order that asks for a name, and an instance
marker asks for it too. -/
def Overtaken (c : Compilation) (t : TypeDeclaration) (name : String) : Prop :=
  ∃ i j, c.Asks t i name ∧ (∀ k < i, ¬ c.Asks t k name) ∧ t.familyAt? i = some .attached ∧
    c.Asks t j name ∧ t.familyAt? j = some .onInstance

end Compilation

namespace Gathered

variable {t : TypeDeclaration} {taken taken' : List String} {r : Reading} {rs : List Reading}

def namesOf (rs : List Reading) : List String := rs.filterMap fun r => r.descriptor.map (·.name)

def join (gs : List Gathered) : Gathered :=
  { descriptors := gs.flatMap (·.descriptors), diagnostics := gs.flatMap (·.diagnostics) }

theorem add_empty_congr (h : ∀ name, name ∈ taken ↔ name ∈ taken') :
    add t taken {} r = add t taken' {} r := by
  simp only [add_eq, List.map_nil, List.append_nil, h]

theorem ofReadings_concat (t : TypeDeclaration) (taken : List String) (rs : List Reading)
    (r : Reading) :
    ofReadings t taken (rs ++ [r]) = join [ofReadings t taken rs,
      add t (taken ++ (ofReadings t taken rs).descriptors.map (·.name)) {} r] := by
  have hstep : ofReadings t taken (rs ++ [r]) = add t taken (ofReadings t taken rs) r := by
    rw [ofReadings, List.foldl_append]
    rfl
  rw [hstep, add_eq]
  simp [add_eq, join]

/-- Dropped duplicates have the names of what was kept before. -/
theorem mem_names_ofReadings (name : String) :
    name ∈ taken ++ (ofReadings t taken rs).descriptors.map (·.name) ↔
      name ∈ taken ++ namesOf rs := by
  induction rs using List.reverseRecOn with
  | nil => rfl
  | append_singleton rs r ih =>
    have hnames : name ∈ taken ++ namesOf (rs ++ [r]) ↔
        name ∈ taken ++ namesOf rs ∨ name ∈ (r.descriptor.map (·.name)).toList := by
      rw [← List.mem_append, List.append_assoc]
      cases hr : r.descriptor <;> simp [namesOf, hr]
    rw [ofReadings_concat, hnames, ← ih]
    generalize hkept : (ofReadings t taken rs).descriptors = kept
    simp only [join, add_eq, List.flatMap_cons, List.flatMap_nil, List.append_nil, List.map_append,
      List.map_nil, hkept, List.nil_append, ← List.append_assoc]
    rw [List.mem_append (s := taken ++ kept.map (·.name))]
    generalize taken ++ kept.map (·.name) = names
    cases r.descriptor with
    | none => simp
    | some d =>
      by_cases hd : d.name ∈ names
      · have hname : name = d.name → name ∈ names := fun h => h ▸ hd
        simpa [hd] using hname
      · simp [hd]

theorem ofReadings_append_singleton (t : TypeDeclaration) (taken : List String)
    (rs : List Reading) (r : Reading) :
    ofReadings t taken (rs ++ [r]) =
      join [ofReadings t taken rs, add t (taken ++ namesOf rs) {} r] := by
  rw [ofReadings_concat, add_empty_congr mem_names_ofReadings]

end Gathered

namespace Compilation

variable {c : Compilation} {t : TypeDeclaration} {f : MarkerFamily} {i : Nat} {name : String}

def readingsBefore (c : Compilation) (t : TypeDeclaration) (f : MarkerFamily) (n : Nat) :
    List Reading :=
  ((t.occurrences.take n).filter fun o => o.family? = some f).map (c.read t)

theorem readingsBefore_length (c : Compilation) (t : TypeDeclaration) (f : MarkerFamily) :
    c.readingsBefore t f t.occurrences.length = c.readings t f := by
  rw [readingsBefore, List.take_length, readings]

theorem readingsBefore_succ (c : Compilation) (f : MarkerFamily) (h : i < t.occurrences.length) :
    c.readingsBefore t f (i + 1) = c.readingsBefore t f i ++
      if t.familyAt? i = some f then [c.readingAt t i] else [] := by
  have hget : t.occurrences[i]? = some t.occurrences[i] := List.getElem?_eq_getElem h
  rw [readingsBefore, readingsBefore, List.take_succ_eq_append_getElem h, List.filter_append,
    List.map_append, TypeDeclaration.familyAt?, readingAt, hget]
  by_cases hf : t.occurrences[i].family? = some f <;> simp [hf]

theorem Asks.lt_length (h : c.Asks t i name) : i < t.occurrences.length := by
  obtain ⟨d, hd, -⟩ := h
  by_contra hge
  simp [readingAt, List.getElem?_eq_none (Nat.le_of_not_lt hge), Reading.nothing] at hd

theorem mem_namesOf_readingsBefore (hn : i ≤ t.occurrences.length) :
    name ∈ Gathered.namesOf (c.readingsBefore t f i) ↔
      ∃ j < i, t.familyAt? j = some f ∧ c.Asks t j name := by
  induction i with
  | zero => simp [readingsBefore, Gathered.namesOf]
  | succ i ih =>
    have hasks : name ∈ Gathered.namesOf [c.readingAt t i] ↔ c.Asks t i name := by
      simp [Gathered.namesOf, Asks, List.mem_filterMap]
    rw [readingsBefore_succ c f hn, Gathered.namesOf, List.filterMap_append, ← Gathered.namesOf,
      List.mem_append, ih (by omega), Nat.exists_lt_succ_right]
    refine or_congr_right ?_
    by_cases hf : t.familyAt? i = some f
    · rw [if_pos hf]
      exact hasks.trans (by simp [hf])
    · simp [hf]

theorem mem_namesBefore_iff :
    name ∈ c.namesBefore t i ↔ ∃ j, t.Precedes j i ∧ c.Asks t j name := by
  simp only [namesBefore, List.mem_filterMap, List.mem_filter, List.mem_range, Option.map_eq_some_iff,
    decide_eq_true_eq]
  constructor
  · rintro ⟨j, ⟨-, hj⟩, d, hd, hname⟩
    exact ⟨j, hj, d, hd, hname⟩
  · rintro ⟨j, hj, hasks⟩
    have hlength := hasks.lt_length
    obtain ⟨d, hd, hname⟩ := hasks
    exact ⟨j, ⟨hlength, hj⟩, d, hd, hname⟩

/-- The markers of a family, one after the other, where other names are taken already. -/
theorem ofReadings_readingsBefore (taken : List String) {n : Nat}
    (hn : n ≤ t.occurrences.length) :
    Gathered.ofReadings t taken (c.readingsBefore t f n) =
      .join (((List.range n).filter fun i => t.familyAt? i = some f).map fun i =>
        .add t (taken ++ Gathered.namesOf (c.readingsBefore t f i)) {} (c.readingAt t i)) := by
  induction n with
  | zero => simp [readingsBefore, Gathered.ofReadings, Gathered.join]
  | succ n ih =>
    rw [readingsBefore_succ c f hn, List.range_succ, List.filter_append, List.map_append]
    by_cases hf : t.familyAt? n = some f
    · rw [if_pos hf, Gathered.ofReadings_append_singleton, ih (by omega)]
      simp [Gathered.join, hf]
    · rw [if_neg hf, List.append_nil, ih (by omega)]
      simp [hf]

theorem mem_names_instances :
    name ∈ (c.gathered t .onInstance).descriptors.map (·.name) ↔
      ∃ j, t.familyAt? j = some .onInstance ∧ c.Asks t j name := by
  have hnames : name ∈ [] ++ (c.gathered t .onInstance).descriptors.map (·.name) ↔
      name ∈ [] ++ Gathered.namesOf (c.readings t .onInstance) :=
    Gathered.mem_names_ofReadings name
  rw [List.nil_append, List.nil_append] at hnames
  rw [hnames, ← readingsBefore_length, mem_namesOf_readingsBefore (Nat.le_refl _)]
  constructor
  · rintro ⟨j, -, hj⟩
    exact ⟨j, hj⟩
  · rintro ⟨j, hfamily, hasks⟩
    exact ⟨j, hasks.lt_length, hfamily, hasks⟩

theorem gathered_eq_join (c : Compilation) (t : TypeDeclaration) (f : MarkerFamily) :
    c.gathered t f = .join ((t.placesOf f).map (c.outcome t)) := by
  have hplace : ∀ i ∈ t.placesOf f, i < t.occurrences.length ∧ t.familyAt? i = some f := by
    intro i hi
    simpa [TypeDeclaration.placesOf] using hi
  cases f with
  | onInstance =>
    rw [gathered, ← readingsBefore_length, ofReadings_readingsBefore [] (Nat.le_refl _)]
    apply congrArg Gathered.join
    apply List.map_congr_left
    intro i hi
    obtain ⟨hlength, hfamily⟩ := hplace i hi
    apply Gathered.add_empty_congr
    intro name
    rw [List.nil_append, mem_namesOf_readingsBefore (Nat.le_of_lt hlength), mem_namesBefore_iff]
    simp only [TypeDeclaration.precedes_instance_iff hfamily, and_assoc, and_left_comm]
  | attached =>
    rw [gathered_attached, ← readingsBefore_length, ofReadings_readingsBefore _ (Nat.le_refl _)]
    apply congrArg Gathered.join
    apply List.map_congr_left
    intro i hi
    obtain ⟨hlength, hfamily⟩ := hplace i hi
    apply Gathered.add_empty_congr
    intro name
    rw [List.mem_append, mem_names_instances, mem_namesOf_readingsBefore (Nat.le_of_lt hlength),
      mem_namesBefore_iff, ← exists_or]
    simp only [TypeDeclaration.precedes_attached_iff hfamily, or_and_right, and_assoc,
      and_left_comm]

variable {d : Descriptor} {j : Nat}

theorem familyAt?_of_readingAt (h : (c.readingAt t i).descriptor = some d) :
    t.familyAt? i = some (if d.isAttached then .attached else .onInstance) ∧
      duplicates (c.readingAt t i).diagnostics = 0 := by
  rw [readingAt] at h ⊢
  rw [TypeDeclaration.familyAt?]
  cases ho : t.occurrences[i]? with
  | none => simp [ho, Reading.nothing] at h
  | some o =>
    rw [ho, Option.map_some, Option.getD_some] at h
    rw [Option.map_some, Option.getD_some]
    obtain ⟨base, hbase, hfamily⟩ := exists_base_of_read h
    rw [hbase.read_eq] at h ⊢
    obtain ⟨s, value, -, rfl, -⟩ := Descriptor.exists_of_applyArguments h
    have hattached : (base.withSettings s value).isAttached = base.isAttached := rfl
    rw [Option.bind_some, hfamily, hattached]
    refine ⟨rfl, ?_⟩
    rw [duplicates, List.countP_eq_zero]
    intro r hr hid
    rw [decide_eq_true_eq] at hid
    simpa [hid] using Descriptor.id_of_mem_applyArguments hr

theorem Asks.family (h : c.Asks t i name) :
    t.familyAt? i = some .onInstance ∨ t.familyAt? i = some .attached := by
  obtain ⟨d, hd, -⟩ := h
  have hfamily := (familyAt?_of_readingAt hd).1
  cases hattached : d.isAttached <;> simp [hfamily, hattached]

theorem outcome_kept (hd : (c.readingAt t i).descriptor = some d)
    (h : ¬ ∃ j, t.Precedes j i ∧ c.Asks t j d.name) :
    c.outcome t i = { descriptors := [d], diagnostics := (c.readingAt t i).diagnostics } := by
  rw [← mem_namesBefore_iff] at h
  simp [outcome, Gathered.add_eq, hd, h]

theorem outcome_dropped (hd : (c.readingAt t i).descriptor = some d)
    (h : ∃ j, t.Precedes j i ∧ c.Asks t j d.name) :
    c.outcome t i =
      { diagnostics := (c.readingAt t i).diagnostics ++ [duplicateName t d] } := by
  rw [← mem_namesBefore_iff] at h
  simp [outcome, Gathered.add_eq, hd, h]

theorem of_mem_outcome (h : d ∈ (c.outcome t i).descriptors) :
    (c.readingAt t i).descriptor = some d ∧ ¬ ∃ j, t.Precedes j i ∧ c.Asks t j d.name := by
  rw [← mem_namesBefore_iff]
  simpa [outcome, Gathered.add_eq, Option.mem_toList] using h

theorem duplicates_outcome (hj : c.Asks t j name) (hi : c.Asks t i name) (h : t.Precedes i j) :
    duplicates (c.outcome t j).diagnostics = 1 := by
  obtain ⟨d, hd, rfl⟩ := hj
  have hnone : duplicates (c.readingAt t j).diagnostics = 0 := (familyAt?_of_readingAt hd).2
  rw [outcome_dropped hd ⟨i, h, hi⟩, duplicates, List.countP_append, ← duplicates, hnone]
  rfl

theorem mem_entries_iff (hkind : t.kind ≠ .enumType ∧ t.kind ≠ .interfaceType) :
    d ∈ (c.entries t).flatMap (·.descriptors) ↔ ∃ i, d ∈ (c.outcome t i).descriptors := by
  have hfamily : ∀ f, d ∈ (c.gathered t f).descriptors ↔
      ∃ i ∈ t.placesOf f, d ∈ (c.outcome t i).descriptors := by
    intro f
    simp [gathered_eq_join, Gathered.join]
  rw [flatMap_entries hkind fun _ hd _ => hd, List.mem_append]
  show d ∈ (c.gathered t .onInstance).descriptors ∨ d ∈ (c.gathered t .attached).descriptors ↔ _
  rw [hfamily, hfamily]
  constructor
  · rintro (⟨i, -, hi⟩ | ⟨i, -, hi⟩)
    · exact ⟨i, hi⟩
    · exact ⟨i, hi⟩
  · rintro ⟨i, hi⟩
    have hasks : c.Asks t i d.name := ⟨d, (of_mem_outcome hi).1, rfl⟩
    have hplace : ∀ f, t.familyAt? i = some f → i ∈ t.placesOf f := by
      intro f hf
      simp [TypeDeclaration.placesOf, hasks.lt_length, hf]
    exact hasks.family.imp (fun hf => ⟨i, hplace _ hf, hi⟩) fun hf => ⟨i, hplace _ hf, hi⟩

theorem not_firstDeclarationWins (hkind : t.kind ≠ .enumType ∧ t.kind ≠ .interfaceType)
    (h : c.Overtaken t name) : ¬ c.FirstDeclarationWins t name := by
  obtain ⟨i, j, hi, hfirst, hattached, hj, hinstance⟩ := h
  intro hwins
  classical
  -- the first of the instance markers is the one that is kept
  have hex : ∃ j, t.familyAt? j = some .onInstance ∧ c.Asks t j name := ⟨j, hinstance, hj⟩
  obtain ⟨hfound, d, hd, rfl⟩ := Nat.find_spec hex
  have hkept : ¬ ∃ k, t.Precedes k (Nat.find hex) ∧ c.Asks t k d.name := by
    rintro ⟨k, hprecedes, hk⟩
    rw [TypeDeclaration.precedes_instance_iff hfound] at hprecedes
    exact Nat.find_min hex hprecedes.2 ⟨hprecedes.1, hk⟩
  have hmem : d ∈ (c.entries t).flatMap (·.descriptors) := by
    rw [mem_entries_iff hkind]
    exact ⟨Nat.find hex, by simp [outcome_kept hd hkept]⟩
  obtain ⟨i', hd', hfirst', -⟩ := hwins d hmem rfl
  have hi' : c.Asks t i' d.name := ⟨d, hd', rfl⟩
  have hsame : i' = i := by
    by_contra hne
    obtain hlt | hlt := Nat.lt_or_gt_of_ne hne
    · exact hfirst i' hlt hi'
    · exact hfirst' i hlt hi
  have hfamily : t.familyAt? i = t.familyAt? (Nat.find hex) := by
    rw [← hsame, (familyAt?_of_readingAt hd').1, (familyAt?_of_readingAt hd).1]
  simp [hattached, hfound] at hfamily

theorem firstDeclarationWins_of_not_overtaken (h : ¬ c.Overtaken t name) :
    c.FirstDeclarationWins t name := by
  rintro d hmem rfl
  by_cases hkind : t.kind = .enumType ∨ t.kind = .interfaceType
  · simp [entries, hkind] at hmem
  obtain ⟨i, hi⟩ := (mem_entries_iff (not_or.mp hkind)).mp hmem
  obtain ⟨hd, hkept⟩ := of_mem_outcome hi
  have hasks : c.Asks t i d.name := ⟨d, hd, rfl⟩
  -- of two places only one that holds an attached marker comes too late for declaration order
  have hbefore : ∀ k l, c.Asks t k d.name → (∀ m < k, ¬ c.Asks t m d.name) → k < l →
      c.Asks t l d.name → t.Precedes k l := by
    intro k l hk hfirst hlt hl
    obtain hfk | hfk := hk.family <;> obtain hfl | hfl := hl.family
    · exact .inr ⟨hfk.trans hfl.symm, hlt⟩
    · exact .inl ⟨hfk, hfl⟩
    · exact absurd ⟨k, l, hk, hfirst, hfk, hl, hfl⟩ h
    · exact .inr ⟨hfk.trans hfl.symm, hlt⟩
  have hfirst : ∀ k < i, ¬ c.Asks t k d.name := by
    classical
    intro k hlt hk
    have hex : ∃ k, c.Asks t k d.name := ⟨k, hk⟩
    have hmin : Nat.find hex < i := Nat.lt_of_le_of_lt (Nat.find_min' hex hk) hlt
    exact hkept ⟨_, hbefore _ _ (Nat.find_spec hex) (fun m hm => Nat.find_min hex hm) hmin hasks,
      Nat.find_spec hex⟩
  exact ⟨i, hd, hfirst, fun j hgt hj => duplicates_outcome hj hasks (hbefore i j hasks hfirst hgt hj)⟩

/-- What the entries of a type hold is what its markers bring in, family by family. A marker keeps
its property if none that is gone through before it asks for the name, and else is reported once.
So the first declaration wins unless an attached marker has it and is overtaken. -/
theorem firstDeclarationWins_iff (c : Compilation) (t : TypeDeclaration) :
    (t.kind = .enumType ∨ t.kind = .interfaceType ∨
      ∀ f, c.descriptorsOf t f = (t.placesOf f).flatMap (fun i => (c.outcome t i).descriptors) ∧
        c.diagnosticsOf t f = (t.placesOf f).flatMap fun i => (c.outcome t i).diagnostics) ∧
    (∀ i d, (c.readingAt t i).descriptor = some d →
      duplicates (c.readingAt t i).diagnostics = 0 ∧
      ((∃ j, t.Precedes j i ∧ c.Asks t j d.name) ∧ c.outcome t i =
          { diagnostics := (c.readingAt t i).diagnostics ++ [duplicateName t d] } ∨
        (¬ ∃ j, t.Precedes j i ∧ c.Asks t j d.name) ∧ c.outcome t i =
          { descriptors := [d], diagnostics := (c.readingAt t i).diagnostics })) ∧
    ∀ name, c.FirstDeclarationWins t name ↔
      t.kind = .enumType ∨ t.kind = .interfaceType ∨ ¬ c.Overtaken t name := by
  refine ⟨?_, ?_, ?_⟩
  · by_cases hkind : t.kind = .enumType ∨ t.kind = .interfaceType
    · exact hkind.imp_right .inl
    · refine .inr (.inr fun f => ?_)
      rw [descriptorsOf_eq (not_or.mp hkind), diagnosticsOf_eq (not_or.mp hkind), gathered_eq_join]
      simp [Gathered.join, List.flatMap_map]
  · intro i d hd
    refine ⟨(familyAt?_of_readingAt hd).2, ?_⟩
    by_cases h : ∃ j, t.Precedes j i ∧ c.Asks t j d.name
    · exact .inl ⟨h, outcome_dropped hd h⟩
    · exact .inr ⟨h, outcome_kept hd h⟩
  · intro name
    rw [← or_assoc]
    constructor
    · intro hwins
      by_cases hkind : t.kind = .enumType ∨ t.kind = .interfaceType
      · exact .inl hkind
      · exact .inr fun h => not_firstDeclarationWins (not_or.mp hkind) h hwins
    · rintro (hkind | h)
      · intro d hd
        simp [entries, hkind] at hd
      · exact firstDeclarationWins_of_not_overtaken h

/-- An attached property before an instance property of the same name. -/
def attachedBefore : TypeDeclaration :=
  { (default : TypeDeclaration) with
    namespaceName := some "Demo"
    name := "Label"
    attributes :=
      [{ name := "AttachedBindableProperty", arguments := [.string "Text"], location := none
         typeArguments :=
           [{ name := "int", primitive := some (.integer .int), isValueType := true,
              nullable := false, isTypeParameter := false },
            { name := "global::Demo.Label", primitive := none, isValueType := false,
              nullable := false, isTypeParameter := false }]
         namedArguments := [] },
       { name := "BindableProperty", arguments := [.string "Text"], location := none
         typeArguments := [{ name := "string", primitive := some .string, isValueType := false,
                             nullable := false, isTypeParameter := false }]
         namedArguments := [] }] }

theorem firstDeclarationWins_iff_attachedBefore :
    ¬ FirstDeclarationWins {} attachedBefore "Text" := by
  have hname : ∀ i < 2, ((readingAt {} attachedBefore i).descriptor.map (·.name)) = some "Text" := by
    decide +kernel
  have hasks : ∀ i < 2, Asks {} attachedBefore i "Text" := fun i hi =>
    Option.map_eq_some_iff.mp (hname i hi)
  rw [(firstDeclarationWins_iff {} attachedBefore).2.2 "Text"]
  rintro (hkind | hkind | h)
  · exact absurd hkind (by decide)
  · exact absurd hkind (by decide)
  · exact h ⟨0, 1, hasks 0 (by omega), by simp, by decide +kernel, hasks 1 (by omega),
      by decide +kernel⟩

end Compilation

end Bindable
