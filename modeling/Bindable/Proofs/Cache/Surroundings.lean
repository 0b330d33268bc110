import Bindable.Proofs.Cache.Settling

/-! What is around the output directory. A run over plain names goes well in a directory that holds
nothing but files, as long as all that its manifest lists is written again, and the entries of the
directory are all it changes. -/

namespace Bindable

open FileTree

namespace OutputCache

/-- The trees in which a directory has one list of entries or another, all else being the same. -/
structure Surrounds (tree : List (String × FileTree) → FileTree) (directory : String)
    (R : List String) : Prop where
  locateFrom_eq : ∀ entries,
    (tree entries).locateFrom [] (partNames directory) = .found R (.directory entries)
  updateAt_eq : ∀ entries change, (tree entries).updateAt change R = tree (change entries)

/-- None of the entries is a directory. -/
def HoldsFiles (entries : List (String × FileTree)) : Prop :=
  ∀ name below, Table.get? entries name ≠ some (.directory below)

variable {c : OutputCache} {f : SourceFile} {files : List SourceFile} {directory name : String}
  {tree : List (String × FileTree) → FileTree} {R : List String}
  {entries : List (String × FileTree)}

theorem holdsFiles_nil : HoldsFiles [] := fun _ _ => by simp [Table.get?]

theorem HoldsFiles.insert (h : HoldsFiles entries) (name : String) (text : Option String) :
    HoldsFiles (Table.insert name (.file text) entries) := by
  intro other below
  rw [Table.get?_insert]
  split
  · simp
  · exact h other below

namespace Surrounds

theorem hasDirectory (h : Surrounds tree directory R) (entries : List (String × FileTree)) :
    (tree entries).HasDirectory directory entries := ⟨R, h.locateFrom_eq entries⟩

theorem write?_eq (h : Surrounds tree directory R) (hfiles : HoldsFiles entries)
    (hname : IsPlainName name) (hcan : canHold directory name = true) (text : Option String) :
    (tree entries).write? (joinPath directory name) text =
      some (tree (Table.insert name (.file text) entries)) := by
  have hput : (tree entries).put (R ++ [name]) (.file text) =
      tree (Table.insert name (.file text) entries) := by
    rw [put_append_singleton, h.updateAt_eq]
  rw [FileTree.write?, HasDirectory.locate_joinPath (h.locateFrom_eq entries) hname, if_pos hcan]
  rcases hentry : Table.get? entries name with - | ⟨old⟩ | ⟨below⟩
  · exact congrArg some hput
  · exact congrArg some hput
  · exact absurd hentry (hfiles name below)

theorem exists_run_write (h : Surrounds tree c.directory R) (hfiles : HoldsFiles entries)
    (hname : IsPlainName f.hintName) (hcan : canHold c.directory f.hintName = true) :
    ∃ c' b entries', (c.write f : StateM Machine _).run ⟨tree entries, []⟩ =
      ((c', .ok b), ⟨tree entries', []⟩) ∧ c'.directory = c.directory ∧ HoldsFiles entries' := by
  rw [run_write_eq_ite]
  split
  · exact ⟨_, _, _, rfl, rfl, hfiles⟩
  · rw [path, h.write?_eq hfiles hname hcan]
    exact ⟨_, _, _, rfl, rfl, hfiles.insert _ _⟩

theorem exists_run_writeAll (h : Surrounds tree c.directory R) (hfiles : HoldsFiles entries)
    (hnames : ∀ f ∈ files, IsPlainName f.hintName ∧ canHold c.directory f.hintName = true) :
    ∃ c' ws entries', (c.writeAll files : StateM Machine _).run ⟨tree entries, []⟩ =
      ((c', .ok ws), ⟨tree entries', []⟩) ∧ HoldsFiles entries' := by
  induction files generalizing c entries with
  | nil => exact ⟨c, [], entries, rfl, hfiles⟩
  | cons f files ih =>
    obtain ⟨⟨hname, hcan⟩, hrest⟩ := List.forall_mem_cons.mp hnames
    obtain ⟨c₁, b, entries₁, hwrite, hdirectory, hfiles₁⟩ := h.exists_run_write hfiles hname hcan
    rw [← hdirectory] at h hrest
    obtain ⟨c', ws, entries', hwrites, hfiles'⟩ := ih h hfiles₁ hrest
    exact ⟨c', b :: ws, entries', run_writeAll_cons.mpr ⟨c₁, _, b, ws, rfl, hwrite, hwrites⟩,
      hfiles'⟩

theorem exists_cachedRun (h : Surrounds tree directory R) (hfiles : HoldsFiles entries)
    (hpath : isPath directory = true) (hmanifest : canHold directory manifestName = true)
    (hlisted : ∀ name ∈ (listed directory (tree entries)).map (·.1), name ∈ files.map (·.hintName))
    (hnames : ∀ f ∈ files, IsPlainName f.hintName ∧ canHold directory f.hintName = true) :
    ∃ ws entries', (cachedRun directory files : StateM Machine _).run ⟨tree entries, []⟩ =
      (.ok (ws, 0), ⟨tree entries', []⟩) := by
  have hhas := h.hasDirectory entries
  obtain ⟨c', ws, entries', hwrites, hfiles'⟩ :=
    exists_run_writeAll (c := opened directory (tree entries)) h hfiles hnames
  obtain ⟨-, rfl, -, -⟩ := run_writeAll_ok (sorted_listed directory (tree entries)) hhas.kind?_nil
    hwrites
  have hstale : (files.foldl recorded (opened directory (tree entries))).stale = [] :=
    stale_foldl_recorded_eq_nil rfl hlisted
  have hwritten := h.write?_eq hfiles' isPlainName_manifestName hmanifest
    (some (Manifest.write (files.foldl recorded (opened directory (tree entries))).entries))
  have hflush := run_flush_of_stale_eq_nil (t := tree entries') hstale
    (by rw [manifestPath, path, directory_foldl_recorded]; exact hwritten)
  exact ⟨ws, _, run_cachedRun (run_openAt_made (hhas.makeDirectories hpath)) hwrites hflush⟩

end Surrounds

end OutputCache

end Bindable
