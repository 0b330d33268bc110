import Bindable.Generation
import Bindable.Proofs.Emission.FileLines
import Bindable.Proofs.Emission.HintName
import Bindable.Proofs.Emission.NameClashes
import Mathlib.Data.List.Induction
import Mathlib.Data.List.Nodup

/-! The sources of a run. Of several files with one name the first is kept, and types that can be
told apart never share a name, so that every property ends up in one file and stands there once. -/

namespace Bindable

section FirstByHint

variable {files : List SourceFile} {f : SourceFile}

theorem firstByHint_sublist (files : List SourceFile) : (firstByHint files).Sublist files := by
  induction files with
  | nil => exact .slnil
  | cons f rest ih => exact (List.filter_sublist.trans ih).cons_cons f

theorem firstByHint_eq_self (h : (files.map (·.hintName)).Nodup) : firstByHint files = files := by
  induction files with
  | nil => rfl
  | cons f rest ih =>
    obtain ⟨hf, hrest⟩ := List.nodup_cons.mp h
    have hne : ∀ g ∈ rest, g.hintName ≠ f.hintName :=
      fun g hg he => hf (List.mem_map.mpr ⟨g, hg, he⟩)
    simp only [firstByHint, ih hrest]
    rw [List.filter_eq_self.mpr (by simpa using hne)]

end FirstByHint

/-- The file is that of the entry, line by line, and names the properties of the entry, each with the
type that declares it, in their order and no others. -/
structure SourceFile.Holds (o : Options) (f : SourceFile) (e : Entry) : Prop where
  hintName_eq : f.hintName = e.hintName
  text_eq : f.text = String.join ((e.lines o).map (·.render))
  hash_eq : f.hash = digest f.text
  signs_eq : (e.lines o).filter (·.isSign) = e.descriptors.flatMap (·.signs (e.headers.length + 1))

section Entries

variable {c : Compilation} {o : Options} {t : TypeDeclaration} {e : Entry} {f : SourceFile}

theorem entries_sublist (c : Compilation) (t : TypeDeclaration) :
    ((c.entries t).map fun e => (e.type, e.family)).Sublist [(t, .onInstance), (t, .attached)] := by
  unfold Compilation.entries
  split
  · exact List.nil_sublist _
  · exact List.filter_sublist.map _

theorem type_of_mem_entries (h : e ∈ c.entries t) : e.type = t := by
  have hm := (entries_sublist c t).subset (List.mem_map_of_mem h)
  simp only [List.mem_cons, Prod.mk.injEq, List.not_mem_nil, or_false] at hm
  exact hm.elim And.left And.left

theorem Entry.sourceFile?_eq_some : e.sourceFile? o = some f ↔
    e.descriptors ≠ [] ∧ f = .ofText e.hintName (e.unit o).render := by
  constructor
  · intro h
    by_cases hd : e.descriptors = []
    · simp [Entry.sourceFile?, Entry.hasOutput, hd] at h
    · simp only [Entry.sourceFile?, Entry.hasOutput, List.isEmpty_eq_false_iff.mpr hd] at h
      exact ⟨hd, (Option.some.inj h).symm⟩
  · rintro ⟨hd, rfl⟩
    simp only [Entry.sourceFile?, Entry.hasOutput, List.isEmpty_eq_false_iff.mpr hd]
    rfl

theorem files_hintName_sublist (o : Options) (es : List Entry) :
    ((es.filterMap (·.sourceFile? o)).map (·.hintName)).Sublist (es.map (·.hintName)) := by
  induction es with
  | nil => exact .slnil
  | cons e es ih =>
    cases hf : e.sourceFile? o with
    | none => simpa [hf] using ih.cons e.hintName
    | some f =>
      obtain ⟨-, rfl⟩ := Entry.sourceFile?_eq_some.mp hf
      simpa [hf, SourceFile.ofText] using ih.cons_cons e.hintName

end Entries

end Bindable
