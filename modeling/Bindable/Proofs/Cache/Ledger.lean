import Bindable.Proofs.Cache.Operations

/-! A ledger of the files of an output directory. It tells which file was written last under every
name, in the directory, in the memory of the open cache and in its manifest. -/

namespace Bindable

open FileTree

structure Ledger where
  /-- The files in the directory. -/
  written : Table SourceFile
  /-- The files whose digests the open cache knows. -/
  remembered : Table SourceFile
  /-- The files whose digests are in the manifest. -/
  saved : Table SourceFile
  deriving Inhabited

namespace Ledger

def empty : Ledger := { written := [], remembered := [], saved := [] }

/-- The directory is opened, with or without what was saved. -/
def opened (l : Ledger) (blank : Bool) : Ledger :=
  { l with remembered := if blank then [] else l.saved }

def wrote (l : Ledger) (f : SourceFile) : Ledger :=
  { l with
    written := l.written.insert f.hintName f
    remembered := l.remembered.insert f.hintName f }

def removed (l : Ledger) (names : List String) : Ledger :=
  { l with
    written := l.written.eraseAll names
    remembered := l.remembered.eraseAll names }

def stored (l : Ledger) : Ledger := { l with saved := l.remembered }

/-- The cache remembers a file with the digest of this one, while the directory holds one with
another text. -/
def Misremembers (l : Ledger) (f : SourceFile) : Prop :=
  ∃ v w, l.remembered.get? f.hintName = some v ∧ v.hash = f.hash ∧
    l.written.get? f.hintName = some w ∧ w.text ≠ f.text

end Ledger

section Records

variable {directory : String} {entries : List (String × FileTree)} {table : Table String}
  {files : Table SourceFile} {f : SourceFile}

/-- The files as entries of the directory. Other entries are left open. -/
structure HoldsFiles (directory : String) (entries : List (String × FileTree))
    (files : Table SourceFile) : Prop where
  get?_eq : ∀ name, IsUnitName name →
    Table.get? entries name = (files.get? name).map fun f => .file (some f.text)
  canHold : ∀ name f, files.get? name = some f → canHold directory name = true

/-- The digests of the files. -/
structure Records (table : Table String) (files : Table SourceFile) : Prop where
  sorted : table.Sorted
  get?_eq : ∀ name, table.get? name = (files.get? name).map (·.hash)
  names : ∀ name ∈ table.map (·.1), IsUnitName name

/-- The digests of the files as a manifest, or no manifest for no files. -/
def HoldsManifest (entries : List (String × FileTree)) (files : Table SourceFile) : Prop :=
  Table.get? entries manifestName = none ∧ files = [] ∨
    ∃ table, Records table files ∧
      Table.get? entries manifestName = some (.file (some (Manifest.write table)))

theorem HoldsFiles.nil : HoldsFiles directory [] [] := by
  refine ⟨fun _ _ => rfl, fun name f hf => ?_⟩
  rw [Table.get?_nil] at hf
  contradiction

theorem HoldsFiles.insert (h : HoldsFiles directory entries files)
    (hhold : FileTree.canHold directory f.hintName = true) :
    HoldsFiles directory (Table.insert f.hintName (.file (some f.text)) entries)
      (files.insert f.hintName f) := by
  refine ⟨fun name hname => ?_, fun name g hg => ?_⟩
  · rw [Table.get?_insert, Table.get?_insert, h.get?_eq name hname]
    by_cases he : f.hintName = name <;> simp [he]
  · rw [Table.get?_insert] at hg
    by_cases he : f.hintName = name
    · exact he ▸ hhold
    · rw [if_neg he] at hg
      exact h.canHold name g hg

theorem HoldsFiles.insert_manifest (h : HoldsFiles directory entries files) (node : FileTree) :
    HoldsFiles directory (Table.insert manifestName node entries) files := by
  refine ⟨fun name hname => ?_, h.canHold⟩
  rw [Table.get?_insert, if_neg (Ne.symm hname.ne_manifest), h.get?_eq name hname]

theorem HoldsFiles.eraseAll (h : HoldsFiles directory entries files) {removed names : List String}
    (hnames : ∀ name, name ∈ removed ↔ name ∈ names) :
    HoldsFiles directory (Table.eraseAll entries removed) (files.eraseAll names) := by
  refine ⟨fun name hname => ?_, fun name g hg => ?_⟩
  · rw [Table.get?_eraseAll, Table.get?_eraseAll, h.get?_eq name hname]
    by_cases hr : name ∈ names
    · rw [if_pos hr, if_pos ((hnames name).mpr hr), Option.map_none]
    · rw [if_neg hr, if_neg (mt (hnames name).mp hr)]
  · rw [Table.get?_eraseAll] at hg
    split at hg
    · contradiction
    · exact h.canHold name g hg

theorem HoldsFiles.textAt?_eq (h : HoldsFiles directory entries files) {t : FileTree}
    (hhas : t.HasDirectory directory entries) {name : String} (hname : IsUnitName name) :
    t.textAt? (joinPath directory name) = (files.get? name).map (·.text) := by
  rw [hhas.textAt?_eq hname.toIsPlainName, h.get?_eq name hname]
  cases hf : files.get? name with
  | none => simp
  | some f => simp [h.canHold name f hf]

theorem HoldsFiles.fileAt_eq (h : HoldsFiles directory entries files) {t : FileTree}
    (hhas : t.HasDirectory directory entries) {name : String} (hname : IsUnitName name) :
    t.fileAt (joinPath directory name) = (files.get? name).isSome := by
  rw [hhas.fileAt_eq hname.toIsPlainName, h.get?_eq name hname]
  cases hf : files.get? name with
  | none => simp
  | some f => simp [h.canHold name f hf, isDirectory]

theorem Records.nil : Records [] [] := ⟨.nil, fun _ => rfl, fun _ h => absurd h List.not_mem_nil⟩

theorem Records.insert (h : Records table files) (hname : IsUnitName f.hintName) :
    Records (table.insert f.hintName f.hash) (files.insert f.hintName f) := by
  refine ⟨h.sorted.insert _ _, fun name => ?_, fun name hm => ?_⟩
  · rw [Table.get?_insert, Table.get?_insert, h.get?_eq]
    by_cases he : f.hintName = name <;> simp [he]
  · obtain ⟨p, hp, rfl⟩ := List.mem_map.mp hm
    rcases Table.mem_insert hp with rfl | hp
    · exact hname
    · exact h.names _ (List.mem_map_of_mem hp)

theorem Records.eraseAll (h : Records table files) {removed names : List String}
    (hnames : ∀ name, name ∈ removed ↔ name ∈ names) :
    Records (table.eraseAll removed) (files.eraseAll names) := by
  refine ⟨h.sorted.eraseAll _, fun name => ?_, fun name hm => ?_⟩
  · rw [Table.get?_eraseAll, Table.get?_eraseAll, h.get?_eq]
    by_cases hr : name ∈ names
    · rw [if_pos hr, if_pos ((hnames name).mpr hr), Option.map_none]
    · rw [if_neg hr, if_neg (mt (hnames name).mp hr)]
  · apply h.names
    rw [← Table.get?_isSome_iff, Table.get?_eraseAll] at hm
    rw [← Table.get?_isSome_iff]
    split at hm
    · contradiction
    · exact hm

theorem HoldsManifest.of_get?_eq (h : HoldsManifest entries files)
    {entries' : List (String × FileTree)}
    (he : Table.get? entries' manifestName = Table.get? entries manifestName) :
    HoldsManifest entries' files := by
  rw [HoldsManifest, he]
  exact h

end Records

end Bindable
