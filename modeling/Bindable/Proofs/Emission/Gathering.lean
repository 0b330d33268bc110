import Bindable.Emission.Entry
import Bindable.Proofs.Marker.Places
import Bindable.Proofs.Marker.Reading
import Bindable.Proofs.Marker.Settings

/-! What is gathered from the markers of a type. A marker adds its descriptor or the report of a
taken name, and whatever its reading reported; the reports of earlier markers have no effect. -/

namespace Bindable

namespace Gathered

variable {t t' : TypeDeclaration} {taken : List String} {g : Gathered} {r : Reading}
  {before after : List Reading}

/-- One marker, by what it adds. -/
theorem add_eq (t : TypeDeclaration) (taken : List String) (g : Gathered) (r : Reading) :
    add t taken g r =
      { descriptors := g.descriptors ++
          r.descriptor.toList.filter fun d => d.name ∉ taken ++ g.descriptors.map (·.name)
        diagnostics := g.diagnostics ++ (r.diagnostics ++
          (r.descriptor.toList.filter fun d =>
            d.name ∈ taken ++ g.descriptors.map (·.name)).map (duplicateName t)) } := by
  rw [add]
  generalize taken ++ g.descriptors.map (·.name) = names
  cases r.descriptor with
  | none => simp
  | some d => by_cases hd : d.name ∈ names <;> simp [hd]

theorem foldl_add (t : TypeDeclaration) (taken : List String) (g : Gathered) (rs : List Reading) :
    rs.foldl (add t taken) g =
      { descriptors := (rs.foldl (add t taken) { g with diagnostics := [] }).descriptors
        diagnostics := g.diagnostics ++
          (rs.foldl (add t taken) { g with diagnostics := [] }).diagnostics } := by
  induction rs generalizing g with
  | nil => simp
  | cons r rs ih =>
    rw [List.foldl_cons, List.foldl_cons, ih, ih (add t taken { g with diagnostics := [] } r)]
    simp only [add_eq, List.nil_append, List.append_assoc]

/-- A marker without a descriptor has no effect on the others. -/
theorem ofReadings_delete (t : TypeDeclaration) (taken : List String) (hr : r.descriptor = none) :
    (ofReadings t taken (before ++ r :: after)).descriptors =
      (ofReadings t taken (before ++ after)).descriptors ∧
    ∃ first rest,
      (ofReadings t taken (before ++ r :: after)).diagnostics = first ++ r.diagnostics ++ rest ∧
      (ofReadings t taken (before ++ after)).diagnostics = first ++ rest := by
  have hadd : ∀ g, add t taken g r = { g with diagnostics := g.diagnostics ++ r.diagnostics } := by
    intro g
    rw [add, hr]
  rw [ofReadings, ofReadings, List.foldl_append, List.foldl_append, List.foldl_cons, hadd,
    foldl_add t taken _ after, foldl_add t taken (before.foldl _ _) after]
  exact ⟨rfl, _, _, rfl, rfl⟩

/-- What is gathered has been read from one of the markers. -/
theorem exists_reading_of_mem {d : Descriptor} {rs : List Reading}
    (hd : d ∈ (ofReadings t taken rs).descriptors) : ∃ r ∈ rs, r.descriptor = some d := by
  have hfold : ∀ g : Gathered, d ∈ (rs.foldl (add t taken) g).descriptors →
      d ∈ g.descriptors ∨ ∃ r ∈ rs, r.descriptor = some d := by
    clear hd
    induction rs with
    | nil => exact fun _ h => .inl h
    | cons r rs ih =>
      intro g h
      rcases ih (add t taken g r) h with hadded | ⟨r', hr', hread⟩
      · rw [add_eq, List.mem_append, List.mem_filter, Option.mem_toList] at hadded
        exact hadded.imp_right fun h => ⟨r, List.mem_cons_self, h.1⟩
      · exact .inr ⟨r', List.mem_cons_of_mem r hr', hread⟩
  exact (hfold {} hd).resolve_left List.not_mem_nil

theorem ofReadings_congr (h : t.name = t'.name) : ofReadings t = ofReadings t' := by
  have hadd : add t = add t' := by
    funext taken g r
    simp only [add, duplicateName, h]
  funext taken rs
  rw [ofReadings, ofReadings, hadd]

end Gathered

namespace Compilation

theorem readings_eq (c : Compilation) (t : TypeDeclaration) (f : MarkerFamily) :
    c.readings t f = (t.places.filter fun o => o.family? = some f).map (c.read t) := by
  rw [readings, TypeDeclaration.occurrences_eq, List.filter_filter]
  congr 2
  funext o
  cases o.family? <;> simp

/-- What is gathered for a family; names that instance properties have are taken. -/
def gathered (c : Compilation) (t : TypeDeclaration) : MarkerFamily → Gathered
  | .onInstance => .ofReadings t [] (c.readings t .onInstance)
  | .attached =>
    .ofReadings t ((Gathered.ofReadings t [] (c.readings t .onInstance)).descriptors.map (·.name))
      (c.readings t .attached)

theorem gathered_attached (c : Compilation) (t : TypeDeclaration) :
    c.gathered t .attached =
      .ofReadings t ((c.gathered t .onInstance).descriptors.map (·.name))
        (c.readings t .attached) :=
  rfl

def entryOf (c : Compilation) (t : TypeDeclaration) (f : MarkerFamily) : Entry :=
  { type := t, family := f, descriptors := (c.gathered t f).descriptors
    diagnostics := (c.gathered t f).diagnostics }

variable {α : Type} {c : Compilation} {t : TypeDeclaration}

theorem entries_eq (hkind : t.kind ≠ .enumType ∧ t.kind ≠ .interfaceType) :
    c.entries t = [c.entryOf t .onInstance, c.entryOf t .attached].filter fun e =>
      e.hasOutput || !e.diagnostics.isEmpty := by
  rw [entries, if_neg (not_or.mpr hkind)]
  rfl

theorem flatMap_filter_of_nil {β : Type} {p : β → Bool} {φ : β → List α}
    (h : ∀ b, p b = false → φ b = []) (l : List β) : (l.filter p).flatMap φ = l.flatMap φ := by
  induction l with
  | nil => rfl
  | cons b l ih =>
    cases hb : p b with
    | true => rw [List.filter_cons_of_pos hb, List.flatMap_cons, List.flatMap_cons, ih]
    | false =>
      rw [List.filter_cons_of_neg (by simp [hb]), List.flatMap_cons, h b hb, ih, List.nil_append]

/-- An entry that is left out holds nothing. -/
theorem flatMap_entries (hkind : t.kind ≠ .enumType ∧ t.kind ≠ .interfaceType)
    {φ : Entry → List α} (hφ : ∀ e, e.descriptors = [] → e.diagnostics = [] → φ e = []) :
    (c.entries t).flatMap φ = φ (c.entryOf t .onInstance) ++ φ (c.entryOf t .attached) := by
  rw [entries_eq hkind, flatMap_filter_of_nil]
  · simp
  · intro e he
    have hempty : e.descriptors = [] ∧ e.diagnostics = [] := by
      simpa [Entry.hasOutput] using he
    exact hφ e hempty.1 hempty.2

/-- Each descriptor of an entry has been read from a marker of the type. -/
theorem exists_read_of_mem_entries {e : Entry} {d : Descriptor} (he : e ∈ c.entries t)
    (hd : d ∈ e.descriptors) : ∃ o ∈ t.places, (c.read t o).descriptor = some d := by
  have hread : ∀ f, d ∈ (c.gathered t f).descriptors →
      ∃ o ∈ t.places, (c.read t o).descriptor = some d := by
    intro f hd
    have hreading : ∃ r ∈ c.readings t f, r.descriptor = some d := by
      cases f with
      | onInstance => exact Gathered.exists_reading_of_mem hd
      | attached => exact Gathered.exists_reading_of_mem hd
    obtain ⟨r, hr, hread⟩ := hreading
    rw [readings_eq] at hr
    obtain ⟨o, ho, rfl⟩ := List.mem_map.mp hr
    exact ⟨o, (List.mem_filter.mp ho).1, hread⟩
  have hkind : t.kind ≠ .enumType ∧ t.kind ≠ .interfaceType := by
    rw [← not_or]
    intro hkind
    rw [entries, if_pos hkind] at he
    exact List.not_mem_nil he
  rw [entries_eq hkind] at he
  rcases List.mem_cons.mp (List.mem_filter.mp he).1 with rfl | he
  · exact hread .onInstance hd
  · rw [List.mem_singleton.mp he] at hd
    exact hread .attached hd

/-- The descriptors that the entries of a type hold for a family. -/
def descriptorsOf (c : Compilation) (t : TypeDeclaration) (f : MarkerFamily) : List Descriptor :=
  ((c.entries t).filter fun e => e.family = f).flatMap (·.descriptors)

def diagnosticsOf (c : Compilation) (t : TypeDeclaration) (f : MarkerFamily) : List Diagnostic :=
  ((c.entries t).filter fun e => e.family = f).flatMap (·.diagnostics)

theorem flatMap_filter_family (hkind : t.kind ≠ .enumType ∧ t.kind ≠ .interfaceType)
    {φ : Entry → List α} (hφ : ∀ e, e.descriptors = [] → e.diagnostics = [] → φ e = [])
    (f : MarkerFamily) :
    ((c.entries t).filter fun e => e.family = f).flatMap φ = φ (c.entryOf t f) := by
  have hguard : ∀ es : List Entry, (es.filter fun e => e.family = f).flatMap φ =
      es.flatMap fun e => if e.family = f then φ e else [] := by
    intro es
    induction es with
    | nil => rfl
    | cons e es ih => by_cases he : e.family = f <;> simp [he, ih]
  rw [hguard, flatMap_entries hkind fun e hd hr => by rw [hφ e hd hr, ite_self]]
  cases f <;> simp [entryOf]

theorem descriptorsOf_eq (hkind : t.kind ≠ .enumType ∧ t.kind ≠ .interfaceType)
    (f : MarkerFamily) : c.descriptorsOf t f = (c.gathered t f).descriptors :=
  flatMap_filter_family hkind (fun _ hd _ => hd) f

theorem diagnosticsOf_eq (hkind : t.kind ≠ .enumType ∧ t.kind ≠ .interfaceType)
    (f : MarkerFamily) : c.diagnosticsOf t f = (c.gathered t f).diagnostics :=
  flatMap_filter_family hkind (fun _ _ hr => hr) f

end Compilation

end Bindable
