import Bindable.Proofs.Cache.Settling

/-! Running the output cache twice over the same files, whatever their names and whatever the
directory holds at first. -/

namespace Bindable

open FileTree

namespace OutputCache

variable {f : SourceFile} {files : List SourceFile} {t : FileTree} {m' : Machine}
  {directory : String} {ws : List Bool} {n : Nat}

/-- Files of one name have one digest. -/
def HaveOneDigest (files : List SourceFile) : Prop :=
  ∀ f ∈ files, ∀ g ∈ files, f.hintName = g.hintName → f.hash = g.hash

instance : DecidablePred HaveOneDigest := fun files =>
  inferInstanceAs (Decidable (∀ f ∈ files, ∀ g ∈ files, f.hintName = g.hintName → f.hash = g.hash))

section Runs

/-- The stages of a run that succeeds: the directory is opened, files are written, and the cache is
flushed. -/
structure Stages (directory : String) (files : List SourceFile) (t opening : FileTree)
    (ws : List Bool) (written flushed : FileTree) : Prop where
  made : t.makeDirectories directory = (true, opening)
  run_writeAll : ((opened directory opening).writeAll files : StateM Machine _).run ⟨opening, []⟩ =
    ((files.foldl recorded (opened directory opening), .ok ws), ⟨written, []⟩)
  puts : (opened directory opening).PutsAll files opening ws written
  same : SameDirectories written flushed
  listed_eq : listed directory flushed = digestsOf files
  write?_manifest : flushed.write? (joinPath directory manifestName)
    (some (Manifest.write (digestsOf files))) = some flushed
  kept : ∀ names,
    (∀ name ∈ (listed directory opening).map (·.1), name ∉ files.map (·.hintName) →
      ¬ written.LeadsTo (joinPath directory name) names) →
    ¬ written.LeadsTo (joinPath directory manifestName) names →
      flushed.kind? names = written.kind? names

theorem exists_stages
    (hrun : (cachedRun directory files : StateM Machine _).run ⟨t, []⟩ = (.ok (ws, n), m')) :
    ∃ opening written flushed, m' = ⟨flushed, []⟩ ∧
      Stages directory files t opening ws written flushed := by
  obtain ⟨c, c₁, c₂, m₀, m₁, hopen, hwrites, hflush⟩ := run_cachedRun_ok hrun
  obtain ⟨hmade, -⟩ := run_openAt_ok (by simp) hopen
  generalize m₀.tree = opening at hmade
  rw [run_openAt_made hmade] at hopen
  cases hopen
  obtain ⟨entries, hhas⟩ := hasDirectory_of_makeDirectories hmade
  have hsorted := sorted_listed directory opening
  obtain ⟨written, rfl, rfl, hputs⟩ := run_writeAll_ok hsorted hhas.kind?_nil hwrites
  have hdirectory : (files.foldl recorded (opened directory opening)).directory = directory :=
    directory_foldl_recorded ..
  have hdigests : (files.foldl recorded (opened directory opening)).entries.eraseAll
      (files.foldl recorded (opened directory opening)).stale = digestsOf files :=
    eraseAll_stale_foldl_recorded hsorted rfl files
  obtain ⟨entries', hhas'⟩ := hputs.same.hasDirectory hhas
  obtain ⟨flushed, rfl, -, hsame, hlisted, hwrite, -, hkept⟩ :=
    run_flush_rest (hdirectory.symm ▸ hhas') (sorted_foldl_recorded hsorted files) hflush
  simp only [manifestPath, path] at hwrite hkept
  rw [hdigests] at hlisted hwrite
  rw [hdirectory] at hlisted hwrite hkept
  refine ⟨opening, written, flushed, rfl, hmade, hwrites, hputs, hsame, hlisted, hwrite,
    fun names hnames => hkept names fun name hname => ?_⟩
  obtain ⟨hknown, hnew⟩ := (mem_stale_foldl_recorded_iff rfl).mp hname
  exact hnames name hknown hnew

namespace Stages

variable {opening written flushed : FileTree}

theorem makeDirectories_flushed (h : Stages directory files t opening ws written flushed) :
    flushed.makeDirectories directory = (true, flushed) := by
  obtain ⟨entries, hhas⟩ := hasDirectory_of_makeDirectories h.made
  obtain ⟨entries', hhas'⟩ := (h.puts.same.trans h.same).hasDirectory hhas
  exact hhas'.makeDirectories (isPath_of_makeDirectories h.made)

theorem kind?_nil (h : Stages directory files t opening ws written flushed) :
    flushed.kind? [] = some .directory := by
  obtain ⟨entries, hhas⟩ := hasDirectory_of_makeDirectories h.makeDirectories_flushed
  exact hhas.kind?_nil

theorem opening_eq {ws' : List Bool} {opening' written' flushed' : FileTree}
    (h : Stages directory files t opening ws written flushed)
    (h' : Stages directory files flushed opening' ws' written' flushed') : flushed = opening' :=
  (Prod.mk.inj (h.makeDirectories_flushed.symm.trans h'.made)).2

/-- Everything that has been written once can be written again, and nothing is stale. -/
theorem exists_again (h : Stages directory files t opening ws written flushed) :
    ∃ ws' m', (cachedRun directory files : StateM Machine _).run ⟨flushed, []⟩ =
      (.ok (ws', 0), m') := by
  have hsorted : (opened directory flushed).entries.Sorted := sorted_listed directory flushed
  have hsame := h.puts.same.trans h.same
  obtain ⟨entries, hhas⟩ := hasDirectory_of_makeDirectories h.made
  obtain ⟨c', ws', m', hwrites⟩ := exists_run_writeAll (c := opened directory flushed) hsorted
    h.kind?_nil fun f hf => by
      obtain ⟨names, hleads⟩ := h.puts.leads f hf
      exact ⟨names, hleads.of_sameDirectories hhas.kind?_nil hsame⟩
  obtain ⟨t', rfl, rfl, hputs⟩ := run_writeAll_ok hsorted h.kind?_nil hwrites
  have hstale : (files.foldl recorded (opened directory flushed)).stale = [] :=
    stale_foldl_recorded_eq_nil rfl fun name hname => by
      rw [opened, h.listed_eq] at hname
      exact mem_names_digestsOf hname
  obtain ⟨manifest, hmanifest, -⟩ := exists_leadsTo_of_write? h.write?_manifest
  have hpath : (files.foldl recorded (opened directory flushed)).manifestPath =
      joinPath directory manifestName := by
    rw [manifestPath, path, directory_foldl_recorded]
    rfl
  have hflush := run_flush_of_stale_eq_nil hstale (hpath ▸
    (hmanifest.of_sameDirectories h.kind?_nil hputs.same).write?_eq)
  exact ⟨ws', _, run_cachedRun (run_openAt_made h.makeDirectories_flushed) hwrites hflush⟩

/-- When it is run again every file is passed over, if files of one name have one digest and are all
in place. -/
theorem run_again (h : Stages directory files t opening ws written flushed)
    (hhash : HaveOneDigest files)
    (hfile : ∀ f ∈ files, flushed.fileAt (joinPath directory f.hintName) = true) :
    (cachedRun directory files : StateM Machine _).run ⟨flushed, []⟩ =
      (.ok (files.map fun _ => false, 0), ⟨flushed, []⟩) := by
  refine run_cachedRun_again h.makeDirectories_flushed h.listed_eq (fun f hf => ?_) hfile
    h.write?_manifest
  obtain ⟨g, hg, hname, hget⟩ := exists_get?_digestsOf (List.mem_map_of_mem hf)
  rw [hget, hhash g hg f hf hname]

/-- A run that passes every file over found one digest for each name. -/
theorem eq_of_all_false {ws' : List Bool} {opening' written' flushed' : FileTree}
    (h : Stages directory files t opening ws written flushed)
    (h' : Stages directory files flushed opening' ws' written' flushed')
    (hws : ∀ w ∈ ws', w = false) :
    HaveOneDigest files ∧ ∀ f ∈ files, flushed.fileAt (joinPath directory f.hintName) = true := by
  obtain rfl := h.opening_eq h'
  have hknown := h'.puts.known hws
  rw [opened, h.listed_eq] at hknown
  refine ⟨fun f hf g hg he => ?_, fun f hf => (hknown f hf).2⟩
  have hf' := (hknown f hf).1
  dsimp only at hf'
  rw [he, (hknown g hg).1] at hf'
  exact (Option.some.inj hf').symm

section PlainNames

variable {ws' : List Bool} {written' flushed' : FileTree}

/-- Plain names below the directory are looked up in the directory itself, as long as directories
stay. -/
def LooksUpAt (directory : String) (opening : FileTree) (R : List String) : Prop :=
  ∀ u, SameDirectories opening u → ∀ name, IsPlainName name → ∀ names,
    u.LeadsTo (joinPath directory name) names → names = R ++ [name]

theorem exists_looksUpAt (h : Stages directory files t opening ws written flushed) :
    ∃ R, LooksUpAt directory opening R := by
  obtain ⟨entries, R, hR⟩ := hasDirectory_of_makeDirectories h.made
  have hroot := HasDirectory.kind?_nil ⟨R, hR⟩
  exact ⟨R, fun u hsame name hname names hleads =>
    ((leadsTo_iff_of_sameDirectories hroot hsame).mpr hleads).eq_append_singleton hname hR⟩

theorem leadsTo (h : Stages directory files t opening ws written flushed) {R : List String}
    (hR : LooksUpAt directory opening R)
    (hnames : ∀ f ∈ files, IsUnitName f.hintName) {u : FileTree} (hsame : SameDirectories opening u)
    (hf : f ∈ files) : u.LeadsTo (joinPath directory f.hintName) (R ++ [f.hintName]) := by
  obtain ⟨entries, hhas⟩ := hasDirectory_of_makeDirectories h.made
  obtain ⟨names, hleads⟩ := h.puts.leads f hf
  have hleads : u.LeadsTo (joinPath directory f.hintName) names :=
    hleads.of_sameDirectories hhas.kind?_nil hsame
  exact hR u hsame _ (hnames f hf).toIsPlainName _ hleads ▸ hleads

/-- Removing what is stale and writing the manifest leaves the files of the run as they are. -/
theorem kind?_flushed (h : Stages directory files t opening ws written flushed) {R : List String}
    (hR : LooksUpAt directory opening R)
    (hnames : ∀ f ∈ files, IsUnitName f.hintName)
    (hlisted : ∀ name ∈ (listed directory opening).map (·.1), IsPlainName name) (hf : f ∈ files) :
    flushed.kind? (R ++ [f.hintName]) = written.kind? (R ++ [f.hintName]) := by
  have hother : ∀ name, IsPlainName name → name ≠ f.hintName →
      ¬ written.LeadsTo (joinPath directory name) (R ++ [f.hintName]) := by
    intro name hname hne hleads
    have hlast := List.append_cancel_left (hR written h.puts.same name hname _ hleads)
    exact hne (List.singleton_inj.mp hlast).symm
  refine h.kept _ (fun name hname hnew => hother name (hlisted name hname) ?_)
    (hother _ isPlainName_manifestName (hnames f hf).ne_manifest.symm)
  rintro rfl
  exact hnew (List.mem_map_of_mem hf)

theorem fileAt_flushed (h : Stages directory files t opening ws written flushed)
    (hnames : ∀ f ∈ files, IsUnitName f.hintName)
    (hlisted : ∀ name ∈ (listed directory opening).map (·.1), IsPlainName name) (hf : f ∈ files) :
    flushed.fileAt (joinPath directory f.hintName) = true := by
  obtain ⟨R, hR⟩ := h.exists_looksUpAt
  have hroot := h.kind?_nil
  have hwritten := h.leadsTo hR hnames h.puts.same hf
  rw [(hwritten.of_sameDirectories ((h.same []).mpr hroot) h.same).fileAt_eq hroot,
    h.kind?_flushed hR hnames hlisted hf, ← hwritten.fileAt_eq ((h.same []).mpr hroot)]
  exact h.puts.fileAt f hf

/-- A second run leaves the same at the end of every list of names. -/
theorem kind?_again (h : Stages directory files t opening ws written flushed)
    (h' : Stages directory files flushed flushed ws' written' flushed')
    (hnames : ∀ f ∈ files, IsUnitName f.hintName)
    (hlisted : ∀ name ∈ (listed directory opening).map (·.1), IsPlainName name)
    (names : List String) : flushed'.kind? names = flushed.kind? names := by
  obtain ⟨R, hR⟩ := h.exists_looksUpAt
  have hroot := h.kind?_nil
  have hsame := h.puts.same.trans h.same
  obtain ⟨manifest, hmanifest, hflushed⟩ := exists_leadsTo_of_write? h.write?_manifest
  by_cases hm : names = manifest
  · -- the manifest is written as it was
    subst hm
    obtain ⟨other, hother, hflushed'⟩ := exists_leadsTo_of_write? h'.write?_manifest
    have hsame' := h'.puts.same.trans h'.same
    obtain rfl := (hmanifest.of_sameDirectories hroot hsame').unique hother
    rw [hflushed', hother.kind?_put ((hsame' []).mp hroot), hflushed, hmanifest.kind?_put hroot,
      if_pos rfl, if_pos rfl]
  have hwritten' : flushed'.kind? names = written'.kind? names := by
    refine h'.kept names (fun name hname hnew => ?_) fun hleads => hm ?_
    · rw [h.listed_eq] at hname
      exact absurd (mem_names_digestsOf hname) hnew
    · exact (hleads.of_sameDirectories ((h'.puts.same []).mp hroot) h'.puts.same.symm).unique
        hmanifest
  rw [hwritten']
  by_cases hname : ∃ f ∈ files, names = R ++ [f.hintName]
  · obtain ⟨f, hf, rfl⟩ := hname
    have hkept := h.kind?_flushed hR hnames hlisted hf
    have hfirst := h.puts.settled R (fun g hg => h.leadsTo hR hnames (.refl _) hg) f.hintName
    have hsecond := h'.puts.settled R (fun g hg => h.leadsTo hR hnames hsame hg) f.hintName
    rw [get?_foldl_recorded, if_pos (List.mem_map_of_mem hf)] at hfirst
    have hknown : (opened directory flushed).entries = digestsOf files := h.listed_eq
    rw [hknown, hkept, hfirst, foldl_settle_foldl_settle, ← hfirst] at hsecond
    rw [(Prod.mk.inj hsecond).2, hkept]
  · refine h'.puts.kept names fun f hf hleads => hname ⟨f, hf, ?_⟩
    exact hR flushed hsame _ (hnames f hf).toIsPlainName names hleads

end PlainNames

end Stages

/-- What a second run does in a directory that the first one has left. -/
structure Repeats (directory : String) (files : List SourceFile) (opening flushed : FileTree)
    (ws : List Bool) (again : FileTree) : Prop where
  writes_nothing_iff : (∀ w ∈ ws, w = false) ↔
    HaveOneDigest files ∧ ∀ f ∈ files, flushed.fileAt (joinPath directory f.hintName) = true
  eq_of_writes_nothing : (∀ w ∈ ws, w = false) → again = flushed
  fileAt : (∀ f ∈ files, IsUnitName f.hintName) →
    (∀ name ∈ (listed directory opening).map (·.1), IsPlainName name) →
      ∀ f ∈ files, flushed.fileAt (joinPath directory f.hintName) = true
  textAt?_eq : (∀ f ∈ files, IsUnitName f.hintName) →
    (∀ name ∈ (listed directory opening).map (·.1), IsPlainName name) →
      ∀ path, again.fileAt path = flushed.fileAt path ∧ again.textAt? path = flushed.textAt? path

/-- After a run that succeeds a second one succeeds and removes nothing. -/
theorem cachedRun_again
    (hrun : (cachedRun directory files : StateM Machine _).run ⟨t, []⟩ = (.ok (ws, n), m')) :
    ∃ ws' again, (cachedRun directory files : StateM Machine _).run ⟨m'.tree, []⟩ =
        (.ok (ws', 0), ⟨again, []⟩) ∧
      Repeats directory files (t.makeDirectories directory).2 m'.tree ws' again := by
  obtain ⟨opening, written, flushed, rfl, h⟩ := exists_stages hrun
  obtain ⟨ws', m'', hagain⟩ := h.exists_again
  obtain ⟨opening', written', again, rfl, h'⟩ := exists_stages hagain
  obtain rfl := h.opening_eq h'
  have hiff : (∀ w ∈ ws', w = false) → _ := h.eq_of_all_false h'
  refine ⟨ws', again, hagain, ?_⟩
  rw [h.made]
  refine ⟨⟨hiff, fun hone => ?_⟩, fun hws => ?_, fun hnames hlisted f hf =>
    h.fileAt_flushed hnames hlisted hf, fun hnames hlisted path => ?_⟩
  · have hrest := h.run_again hone.1 hone.2
    rw [hagain] at hrest
    cases hrest
    simp
  · have hrest := h.run_again (hiff hws).1 (hiff hws).2
    rw [hagain] at hrest
    cases hrest
    rfl
  · exact file_eq_of_sameDirectories h.kind?_nil (h'.puts.same.trans h'.same)
      fun names _ => h.kind?_again h' hnames hlisted names

end Runs

end OutputCache

end Bindable
