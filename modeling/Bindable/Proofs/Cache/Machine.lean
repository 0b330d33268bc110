import Bindable.OutputCache
import Bindable.Proofs.Files.Directory

/-! A machine whose file operations may fail. It is settled beforehand which of them do, and a
failing one changes nothing. -/

namespace Bindable

structure Machine where
  tree : FileTree
  /-- Whether the operations to come fail, one by one; those after the last do not. -/
  faults : List Bool

namespace Machine

variable {α β : Type}

/-- An operation on the tree with its outcome, or the outcome of its failure. -/
def attempt (failure : α) (operation : StateM FileTree α) : StateM Machine α := fun m =>
  if m.faults.head? = some true then (failure, { m with faults := m.faults.tail })
  else ((operation.run m.tree).1, ⟨(operation.run m.tree).2, m.faults.tail⟩)

instance : FileStore (StateM Machine) where
  isFile path := attempt false (FileStore.isFile path)
  isDirectory path := attempt false (FileStore.isDirectory path)
  readText? path := attempt none (FileStore.readText? path)
  writeText path text := attempt false (FileStore.writeText path text)
  removeFile path := attempt .failed (FileStore.removeFile path)
  makeDirectories path := attempt false (FileStore.makeDirectories path)
  filesBelow path := attempt none (FileStore.filesBelow path)

theorem run_bind (x : StateM Machine α) (f : α → StateM Machine β) (m : Machine) :
    (x >>= f).run m = (f (x.run m).1).run (x.run m).2 := rfl

theorem run_attempt_cases (failure : α) (operation : StateM FileTree α) (m : Machine) :
    (m.faults ≠ [] ∧ ((attempt failure operation).run m).1 = failure ∧
      ((attempt failure operation).run m).2.tree = m.tree) ∨
    ((attempt failure operation).run m).1 = (operation.run m.tree).1 ∧
      ((attempt failure operation).run m).2.tree = (operation.run m.tree).2 := by
  by_cases h : m.faults.head? = some true
  · have hrun : (attempt failure operation).run m = (failure, { m with faults := m.faults.tail }) :=
      if_pos h
    have hne : m.faults ≠ [] := fun he => by simp [he] at h
    rw [hrun]
    exact .inl ⟨hne, rfl, rfl⟩
  · have hrun : (attempt failure operation).run m =
        ((operation.run m.tree).1, ⟨(operation.run m.tree).2, m.faults.tail⟩) := if_neg h
    rw [hrun]
    exact .inr ⟨rfl, rfl⟩

theorem run_attempt {failure : α} {operation : StateM FileTree α} {m : Machine}
    (h : m.faults.head? ≠ some true) :
    (attempt failure operation).run m =
      ((operation.run m.tree).1, ⟨(operation.run m.tree).2, m.faults.tail⟩) :=
  if_neg h

theorem faults_attempt (failure : α) (operation : StateM FileTree α) (m : Machine) :
    ((attempt failure operation).run m).2.faults = m.faults.tail := by
  by_cases h : m.faults.head? = some true
  · have hrun : (attempt failure operation).run m = (failure, { m with faults := m.faults.tail }) :=
      if_pos h
    rw [hrun]
  · rw [run_attempt h]

theorem run_isFile (m : Machine) (path : String) :
    let r := (FileStore.isFile path : StateM Machine Bool).run m
    r.2.tree = m.tree ∧ (r.1 = true → m.tree.fileAt path = true) ∧
      (m.faults = [] → r.1 = m.tree.fileAt path) := by
  rcases run_attempt_cases false (FileStore.isFile path) m with ⟨hne, hr, ht⟩ | ⟨hr, ht⟩
  · exact ⟨ht, fun h => absurd (hr.symm.trans h) (by decide), fun h => absurd h hne⟩
  · exact ⟨ht, fun h => hr.symm.trans h, fun _ => hr⟩

theorem run_readText? (m : Machine) (path : String) :
    let r := (FileStore.readText? path : StateM Machine (Option String)).run m
    r.2.tree = m.tree ∧ (r.1 = none ∨ r.1 = m.tree.textAt? path) := by
  rcases run_attempt_cases none (FileStore.readText? path) m with ⟨-, hr, ht⟩ | ⟨hr, ht⟩
  · exact ⟨ht, .inl hr⟩
  · exact ⟨ht, .inr hr⟩

theorem run_readText?_of_ne {m : Machine} (h : m.faults.head? ≠ some true) (path : String) :
    (FileStore.readText? path : StateM Machine (Option String)).run m =
      (m.tree.textAt? path, ⟨m.tree, m.faults.tail⟩) :=
  run_attempt h

theorem run_writeText (m : Machine) (path text : String) :
    let r := (FileStore.writeText path text : StateM Machine Bool).run m
    r.1 = false ∧ r.2.tree = m.tree ∨
      r.1 = true ∧ m.tree.write? path (some text) = some r.2.tree := by
  rcases run_attempt_cases false (FileStore.writeText path text) m with ⟨-, hr, ht⟩ | ⟨hr, ht⟩
  · exact .inl ⟨hr, ht⟩
  cases hw : m.tree.write? path (some text) with
  | none =>
    have hrun : (FileStore.writeText path text : StateM FileTree Bool).run m.tree =
        (false, m.tree) := by
      simp [FileStore.writeText, hw]
      rfl
    rw [hrun] at hr ht
    exact .inl ⟨hr, ht⟩
  | some t =>
    have hrun : (FileStore.writeText path text : StateM FileTree Bool).run m.tree = (true, t) := by
      simp [FileStore.writeText, hw]
      rfl
    rw [hrun] at hr ht
    exact .inr ⟨hr, congrArg some ht.symm⟩

theorem run_removeFile (m : Machine) (path : String) :
    let r := (FileStore.removeFile path : StateM Machine Removal).run m
    r.1 = .failed ∧ r.2.tree = m.tree ∨
      r.1 = (m.tree.remove path).1 ∧ r.2.tree = (m.tree.remove path).2 := by
  rcases run_attempt_cases .failed (FileStore.removeFile path) m with ⟨-, hr, ht⟩ | ⟨hr, ht⟩
  · exact .inl ⟨hr, ht⟩
  · exact .inr ⟨hr, ht⟩

theorem run_makeDirectories (m : Machine) (path : String) :
    let r := (FileStore.makeDirectories path : StateM Machine Bool).run m
    r.1 = false ∧ r.2.tree = m.tree ∨ (r.1, r.2.tree) = m.tree.makeDirectories path := by
  rcases run_attempt_cases false (FileStore.makeDirectories path) m with ⟨-, hr, ht⟩ | ⟨hr, ht⟩
  · exact .inl ⟨hr, ht⟩
  · exact .inr (Prod.ext hr ht)

section WithoutFaults

variable {t t' : FileTree} {path text : String}

theorem run_isFile_eq (t : FileTree) (path : String) :
    (FileStore.isFile path : StateM Machine Bool).run ⟨t, []⟩ = (t.fileAt path, ⟨t, []⟩) :=
  run_attempt (by simp)

theorem run_isDirectory_eq (t : FileTree) (path : String) :
    (FileStore.isDirectory path : StateM Machine Bool).run ⟨t, []⟩ =
      (t.directoryAt path, ⟨t, []⟩) :=
  run_attempt (by simp)

theorem run_readText?_eq (t : FileTree) (path : String) :
    (FileStore.readText? path : StateM Machine (Option String)).run ⟨t, []⟩ =
      (t.textAt? path, ⟨t, []⟩) :=
  run_attempt (by simp)

theorem run_writeText_eq (t : FileTree) (path text : String) :
    (FileStore.writeText path text : StateM Machine Bool).run ⟨t, []⟩ =
      ((t.write? path (some text)).isSome, ⟨(t.write? path (some text)).getD t, []⟩) := by
  refine (run_attempt (by simp)).trans ?_
  cases h : t.write? path (some text) <;> simp [FileStore.writeText, h] <;> rfl

theorem run_writeText_of_write? (h : t.write? path (some text) = some t') :
    (FileStore.writeText path text : StateM Machine Bool).run ⟨t, []⟩ = (true, ⟨t', []⟩) := by
  rw [run_writeText_eq, h]
  rfl

theorem run_removeFile_eq (t : FileTree) (path : String) :
    (FileStore.removeFile path : StateM Machine Removal).run ⟨t, []⟩ =
      ((t.remove path).1, ⟨(t.remove path).2, []⟩) :=
  run_attempt (by simp)

theorem run_filesBelow_eq (t : FileTree) (path : String) :
    ∃ found, (FileStore.filesBelow path : StateM Machine (Option (List String))).run ⟨t, []⟩ =
      (found, ⟨t, []⟩) := by
  have htree : ((FileStore.filesBelow path : StateM FileTree (Option (List String))).run t).2 =
      t := by
    simp only [FileStore.filesBelow, StateT.run_bind, StateT.run_get, pure_bind]
    split <;> rfl
  refine ⟨_, (run_attempt (by simp)).trans (Prod.ext rfl ?_)⟩
  rw [htree]
  rfl

theorem run_filesBelow_of_locate {names : List String} {node : FileTree}
    (h : t.locate path = .found names node) :
    (FileStore.filesBelow path : StateM Machine (Option (List String))).run ⟨t, []⟩ =
      (node.filePaths? path, ⟨t, []⟩) := by
  refine (run_attempt (by simp)).trans ?_
  simp [FileStore.filesBelow, h]
  rfl

end WithoutFaults

end Machine

end Bindable
