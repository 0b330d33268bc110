import Bindable.Marker.Occurrence

/-! The places of attributes. Whatever goes through a type for its markers goes through them. -/

namespace Bindable.TypeDeclaration

/-- Every attribute of a type and its members, where it is written. -/
def places (t : TypeDeclaration) : List Occurrence :=
  t.attributes.map .onType ++ t.properties.flatMap (fun p => p.attributes.map (.onProperty p)) ++
    t.methods.flatMap (fun m => m.attributes.map (.onMethod m))

theorem walk_filterMap_occurrence? (t : TypeDeclaration) :
    t.walk.filterMap (·.occurrence?) = t.places := by
  have hsome : ∀ {α β : Type} (f : α → β) (l : List α),
      l.filterMap (fun a => some (f a)) = l.map f :=
    fun f l => List.filterMap_eq_map ▸ rfl
  simp only [walk, walkPruned, places, List.filterMap_append, List.filterMap_flatMap,
    List.filterMap_cons, List.filterMap_map, Function.comp_def, Visit.occurrence?,
    Bool.false_eq_true, if_false, hsome]

theorem occurrences_eq (t : TypeDeclaration) :
    t.occurrences = t.places.filter fun o => o.family?.isSome := by
  rw [occurrences, walk_filterMap_occurrence?]

theorem exists_mem_places {P : Occurrence → Prop} (t : TypeDeclaration) :
    (∃ o ∈ t.places, P o) ↔ (∃ a ∈ t.attributes, P (.onType a)) ∨
      (∃ p ∈ t.properties, ∃ a ∈ p.attributes, P (.onProperty p a)) ∨
      ∃ m ∈ t.methods, ∃ a ∈ m.attributes, P (.onMethod m a) := by
  simp only [places, List.mem_append, List.mem_map, List.mem_flatMap]
  constructor
  · rintro ⟨o, (⟨a, ha, rfl⟩ | ⟨p, hp, a, ha, rfl⟩) | ⟨m, hm, a, ha, rfl⟩, ho⟩
    · exact .inl ⟨a, ha, ho⟩
    · exact .inr (.inl ⟨p, hp, a, ha, ho⟩)
    · exact .inr (.inr ⟨m, hm, a, ha, ho⟩)
  · rintro (⟨a, ha, ho⟩ | ⟨p, hp, a, ha, ho⟩ | ⟨m, hm, a, ha, ho⟩)
    · exact ⟨_, .inl (.inl ⟨a, ha, rfl⟩), ho⟩
    · exact ⟨_, .inl (.inr ⟨p, hp, a, ha, rfl⟩), ho⟩
    · exact ⟨_, .inr ⟨m, hm, a, ha, rfl⟩, ho⟩

/-- A report on visits that has nothing to say about members themselves. -/
theorem walk_flatMap {α : Type} {f : Visit → List α} {g : Occurrence → List α}
    (h : ∀ v, f v = (v.occurrence?.map g).getD []) (t : TypeDeclaration) :
    t.walk.flatMap f = t.places.flatMap g := by
  rw [← walk_filterMap_occurrence?]
  induction t.walk with
  | nil => rfl
  | cons v vs ih =>
    rw [List.flatMap_cons, h, ih]
    cases hv : v.occurrence? with
    | none => rw [List.filterMap_cons_none hv, Option.map_none, Option.getD_none, List.nil_append]
    | some o =>
      rw [List.filterMap_cons_some hv, Option.map_some, Option.getD_some, List.flatMap_cons]

end Bindable.TypeDeclaration
