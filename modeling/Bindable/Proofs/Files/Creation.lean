import Bindable.Proofs.Files.Directory

/-! Creating directories. What has been created is there, and directories that were there before
stay. -/

namespace Bindable.FileTree

variable {root t u : FileTree} {names reached : List String} {path : String}

theorem KeepsDirectories.refl (t : FileTree) : KeepsDirectories t t :=
  fun _ entries h => ⟨entries, h⟩

theorem KeepsDirectories.trans (h : KeepsDirectories root t) (h' : KeepsDirectories t u) :
    KeepsDirectories root u := by
  intro names entries hnode
  obtain ⟨entries', hnode'⟩ := h names entries hnode
  exact h' names entries' hnode'

/-- The first name is entered, after a directory has been made for it if there was none. -/
theorem makeFrom_cons {name : String} (h : root.makeFrom reached (name :: names) = (true, t)) :
    ∃ entries root', root.node? reached = some (directory entries) ∧ KeepsDirectories root root' ∧
      (name = "." ∨ name = ".." ∨ isFileName name = true) ∧
      root'.makeFrom (enter reached name) names = (true, t) := by
  rw [makeFrom] at h
  split at h
  next entries hnode =>
    rw [enter]
    by_cases hdot : name = "."
    · rw [if_pos hdot] at h ⊢
      exact ⟨entries, root, hnode, .refl root, .inl hdot, h⟩
    by_cases hdots : name = ".."
    · rw [if_neg hdot, if_pos hdots] at h ⊢
      exact ⟨entries, root, hnode, .refl root, .inr (.inl hdots), h⟩
    rw [if_neg hdot, if_neg hdots] at h ⊢
    by_cases hname : isFileName name = true
    · rw [if_neg (by simp [hname])] at h
      cases hentry : Table.get? entries name with
      | some node =>
        rw [hentry, if_pos (by simp)] at h
        exact ⟨entries, root, hnode, .refl root, .inr (.inr hname), h⟩
      | none =>
        rw [hentry, if_neg (by simp), put_append_singleton] at h
        refine ⟨entries, _, hnode, keepsDirectories_updateAt hnode ?_, .inr (.inr hname), h⟩
        intro other below hb
        rw [Table.get?_insert, if_neg, hb]
        rintro rfl
        simp [hentry] at hb
    · simp [hname] at h
  next => simp at h

theorem makeFrom_found (h : root.makeFrom reached names = (true, t)) :
    KeepsDirectories root t ∧
      ∃ R entries, t.locateFrom reached names = .found R (directory entries) := by
  induction names generalizing root reached with
  | nil =>
    rw [makeFrom, Prod.mk.injEq] at h
    obtain ⟨hdirectory, rfl⟩ := h
    refine ⟨.refl root, reached, ?_⟩
    rcases hnode : root.node? reached with - | ⟨text⟩ | ⟨entries⟩
    · simp [hnode] at hdirectory
    · simp [hnode, isDirectory] at hdirectory
    · exact ⟨entries, locateFrom_nil_eq_found_iff.mpr ⟨rfl, hnode⟩⟩
  | cons name names ih =>
    obtain ⟨entries, root', hnode, hkeeps, henter, hrest⟩ := makeFrom_cons h
    obtain ⟨hkeeps', R, below, hfound⟩ := ih hrest
    -- what is made further down the path leaves the directory that is entered here in place
    have hkept := hkeeps.trans hkeeps'
    obtain ⟨around, haround⟩ := hkept reached entries hnode
    refine ⟨hkept, R, below, locateFrom_cons_eq_found_iff.mpr ⟨around, haround, ?_, hfound⟩⟩
    by_cases hdot : name = "."
    · exact .inl hdot
    by_cases hdots : name = ".."
    · exact .inr (.inl hdots)
    obtain ⟨entered, hentered⟩ := exists_node?_of_locateFrom hfound
    rw [enter, if_neg hdot, if_neg hdots, node?_append_singleton haround] at hentered
    exact .inr (.inr ⟨(henter.resolve_left hdot).resolve_left hdots, by rw [hentered]; rfl⟩)

/-- A directory that has been created is there. -/
theorem hasDirectory_of_makeDirectories (h : root.makeDirectories path = (true, t)) :
    ∃ entries, t.HasDirectory path entries := by
  simp only [FileTree.makeDirectories, isPath_of_makeDirectories h, Bool.not_true,
    if_neg Bool.false_ne_true] at h
  split at h
  · rw [Prod.mk.injEq, Bool.and_eq_true] at h
    obtain ⟨⟨-, hat⟩, rfl⟩ := h
    rw [directoryAt] at hat
    split at hat
    next R entries hlocated =>
      rw [locate] at hlocated
      split at hlocated
      · simp only [pathNames] at hlocated
        split at hlocated
        · obtain ⟨R', entries', hfound⟩ := exists_locateFrom_of_append hlocated
          exact ⟨entries', R', hfound⟩
        · exact ⟨entries, R, hlocated⟩
      · contradiction
    next => contradiction
  · obtain ⟨-, R, entries, hfound⟩ := makeFrom_found h
    exact ⟨entries, R, hfound⟩

end Bindable.FileTree
