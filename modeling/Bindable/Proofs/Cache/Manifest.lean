import Bindable.OutputCache
import Bindable.Proofs.Json.RoundTrip
import Bindable.Proofs.Table

/-! A manifest is read back as it was written. -/

namespace Bindable.Manifest

open Json

theorem isDecimal_toJson (entries : Table String) : (toJson entries).IsDecimal := by
  have hfields : ∀ entries : Table String, FieldsAreDecimal
      ((entries.map fun p => (p.1, Json.ofString p.2)).map fun p => (some p.1, p.2)) := by
    intro entries
    induction entries with
    | nil => exact trivial
    | cons p entries ih => exact ⟨trivial, ih⟩
  exact ⟨hfields entries, trivial⟩

theorem entriesOfJson?_ofFields (entries : Table String) :
    entriesOfJson? (.ofFields (entries.map fun p => (p.1, .ofString p.2))) =
      some (Table.ofList entries) := by
  have hread : ((entries.map fun p => (p.1, Json.ofString p.2)).map
      fun p => (some p.1, p.2)).mapM (fun p => do return (← p.1, ← p.2.string?)) =
        some entries := by
    induction entries with
    | nil => rfl
    | cons p entries ih =>
      rw [List.map_cons, List.map_cons, List.mapM_cons, ih]
      rfl
  show (do let entries ← _; return Table.ofList entries) = _
  rw [hread]
  rfl

theorem ofJson?_toJson (entries : Table String) :
    ofJson? (toJson entries) = some (Table.ofList entries) := by
  rw [← entriesOfJson?_ofFields]
  rfl

theorem parse?_write {entries : Table String} (h : entries.Sorted) :
    parse? (write entries) = some entries := by
  rw [parse?, write, parse?_pretty (isDecimal_toJson entries), Option.bind_some, ofJson?_toJson,
    h.ofList]

theorem sorted_of_entriesOfJson? {j : Json} {entries : Table String}
    (h : entriesOfJson? j = some entries) : entries.Sorted := by
  unfold entriesOfJson? at h
  split at h
  · obtain ⟨fields, -, hf⟩ := Option.bind_eq_some_iff.mp h
    rw [← Option.some.inj hf]
    exact Table.sorted_ofList fields
  · contradiction

theorem sorted_of_parse? {text : String} {entries : Table String}
    (h : parse? text = some entries) : entries.Sorted := by
  obtain ⟨j, -, hj⟩ := Option.bind_eq_some_iff.mp h
  obtain ⟨values, -, hvalues⟩ := Option.bind_eq_some_iff.mp hj
  split at hvalues
  next value =>
    cases value with
    | none => contradiction
    | some value => exact sorted_of_entriesOfJson? hvalues
  next => contradiction

end Bindable.Manifest
