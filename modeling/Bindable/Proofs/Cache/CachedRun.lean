import Bindable.Proofs.Cache.Operations
import Bindable.Proofs.Files.Creation

/-! A run of the output cache over a directory whose manifest is accurate. It leaves what writing
every file afresh leaves, and doing it again changes nothing. -/

namespace Bindable

open FileTree

namespace OutputCache

section Monadic

variable {m : Type → Type} [Monad m] [FileStore m]

/-- Writes files one by one, up to the first that cannot be written; tells which were written. -/
def writeAll (c : OutputCache) : List SourceFile → m (OutputCache × Except Fault (List Bool))
  | [] => return (c, .ok [])
  | f :: rest => do
    match ← c.write f with
    | (c, .error e) => return (c, .error e)
    | (c, .ok written) =>
      match ← writeAll c rest with
      | (c, .error e) => return (c, .error e)
      | (c, .ok ws) => return (c, .ok (written :: ws))

/-- Opens a directory, writes files and flushes; gives what was written and the number of stale
names. -/
def cachedRun (directory : String) (files : List SourceFile) :
    m (Except Fault (List Bool × Nat)) := do
  match ← openAt directory with
  | .error e => return .error e
  | .ok c =>
    match ← c.writeAll files with
    | (_, .error e) => return .error e
    | (c, .ok ws) =>
      match ← c.flush with
      | (_, .error e) => return .error e
      | (_, .ok n) => return .ok (ws, n)

end Monadic

variable {c c' : OutputCache} {f : SourceFile} {files : List SourceFile} {m m' : Machine}
  {directory : String} {n : Nat} {ws : List Bool}

/-- All writes succeed when the first does and all others do. -/
theorem run_writeAll_cons :
    (c.writeAll (f :: files) : StateM Machine _).run m = ((c', .ok ws), m') ↔
      ∃ c₁ m₁ b bs, ws = b :: bs ∧ (c.write f : StateM Machine _).run m = ((c₁, .ok b), m₁) ∧
        (c₁.writeAll files : StateM Machine _).run m₁ = ((c', .ok bs), m') := by
  rw [writeAll, Machine.run_bind]
  rcases (c.write f : StateM Machine _).run m with ⟨⟨c₁, e | b⟩, m₁⟩
  · constructor
    · rintro ⟨⟩
    · rintro ⟨c₂, m₂, b, bs, -, ⟨⟩, -⟩
  dsimp only
  rw [Machine.run_bind]
  rcases hr : (c₁.writeAll files : StateM Machine _).run m₁ with ⟨⟨c₂, e | bs⟩, m₂⟩
  · constructor
    · rintro ⟨⟩
    · rintro ⟨c₃, m₃, b', bs, -, ⟨⟩, hrest⟩
      rw [hr] at hrest
      cases hrest
  · constructor
    · rintro ⟨⟩
      exact ⟨c₁, m₁, b, bs, rfl, rfl, hr⟩
    · rintro ⟨c₃, m₃, b', bs', rfl, ⟨⟩, hrest⟩
      rw [hr] at hrest
      cases hrest
      rfl

theorem run_writeAll_append {more : List SourceFile} :
    (c.writeAll (files ++ more) : StateM Machine _).run m = ((c', .ok ws), m') ↔
      ∃ c₁ m₁ bs bs', ws = bs ++ bs' ∧
        (c.writeAll files : StateM Machine _).run m = ((c₁, .ok bs), m₁) ∧
        (c₁.writeAll more : StateM Machine _).run m₁ = ((c', .ok bs'), m') := by
  induction files generalizing c m ws with
  | nil =>
    constructor
    · intro h
      exact ⟨c, m, [], ws, rfl, rfl, h⟩
    · rintro ⟨c₁, m₁, bs, bs', rfl, ⟨⟩, h⟩
      exact h
  | cons f files ih =>
    simp only [List.cons_append, run_writeAll_cons, ih]
    constructor
    · rintro ⟨c₁, m₁, b, _, rfl, hf, c₂, m₂, bs, bs', rfl, hfiles, hmore⟩
      exact ⟨c₂, m₂, b :: bs, bs', rfl, ⟨c₁, m₁, b, bs, rfl, hf, hfiles⟩, hmore⟩
    · rintro ⟨c₂, m₂, _, bs', rfl, ⟨c₁, m₁, b, bs, rfl, hf, hfiles⟩, hmore⟩
      exact ⟨c₁, m₁, b, bs ++ bs', rfl, hf, c₂, m₂, bs, bs', rfl, hfiles, hmore⟩

theorem run_cachedRun {c₁ c₂ : OutputCache} {m₀ m₁ : Machine}
    (hopen : (openAt directory : StateM Machine _).run m = (.ok c, m₀))
    (hwrites : (c.writeAll files : StateM Machine _).run m₀ = ((c₁, .ok ws), m₁))
    (hflush : (c₁.flush : StateM Machine _).run m₁ = ((c₂, .ok n), m')) :
    (cachedRun directory files : StateM Machine _).run m = (.ok (ws, n), m') := by
  rw [cachedRun, Machine.run_bind, hopen]
  dsimp only
  rw [Machine.run_bind, hwrites]
  dsimp only
  rw [Machine.run_bind, hflush]
  rfl

theorem run_cachedRun_ok
    (h : (cachedRun directory files : StateM Machine _).run m = (.ok (ws, n), m')) :
    ∃ c c₁ c₂ m₀ m₁, (openAt directory : StateM Machine _).run m = (.ok c, m₀) ∧
      (c.writeAll files : StateM Machine _).run m₀ = ((c₁, .ok ws), m₁) ∧
      (c₁.flush : StateM Machine _).run m₁ = ((c₂, .ok n), m') := by
  rw [cachedRun, Machine.run_bind] at h
  rcases ho : (openAt directory : StateM Machine _).run m with ⟨e | c, m₀⟩
  · rw [ho] at h
    cases h
  rw [ho] at h
  dsimp only at h
  rw [Machine.run_bind] at h
  rcases hw : (c.writeAll files : StateM Machine _).run m₀ with ⟨⟨c₁, e | bs⟩, m₁⟩
  · rw [hw] at h
    cases h
  rw [hw] at h
  dsimp only at h
  rw [Machine.run_bind] at h
  rcases hf : (c₁.flush : StateM Machine _).run m₁ with ⟨⟨c₂, e | k⟩, m₂⟩
  · rw [hf] at h
    cases h
  rw [hf] at h
  cases h
  exact ⟨c, c₁, c₂, m₀, m₁, rfl, hw, hf⟩

end OutputCache

section Digests

variable {files : List SourceFile} {f : SourceFile} {name : String}

def digestsOf (files : List SourceFile) : Table String :=
  Table.ofList (files.map fun f => (f.hintName, f.hash))

theorem sorted_digestsOf (files : List SourceFile) : (digestsOf files).Sorted :=
  Table.sorted_ofList _

theorem names_digests (files : List SourceFile) :
    (files.map fun f => (f.hintName, f.hash)).map (·.1) = files.map (·.hintName) := by
  simp

theorem get?_digestsOf (hnodup : (files.map (·.hintName)).Nodup) (hf : f ∈ files) :
    (digestsOf files).get? f.hintName = some f.hash :=
  Table.get?_ofList_of_mem (by rwa [names_digests]) (List.mem_map_of_mem hf)

theorem get?_digestsOf_of_notMem (h : name ∉ files.map (·.hintName)) :
    (digestsOf files).get? name = none :=
  Table.get?_ofList_of_notMem (by rwa [names_digests])

theorem mem_names_digestsOf (h : name ∈ (digestsOf files).map (·.1)) :
    name ∈ files.map (·.hintName) := by
  by_contra hname
  rw [← Table.get?_isSome_iff, get?_digestsOf_of_notMem hname] at h
  contradiction

theorem mem_of_get?_digestsOf {hash : String} (hnodup : (files.map (·.hintName)).Nodup)
    (h : (digestsOf files).get? name = some hash) :
    ∃ f ∈ files, f.hintName = name ∧ f.hash = hash := by
  by_cases hname : name ∈ files.map (·.hintName)
  · obtain ⟨f, hf, rfl⟩ := List.mem_map.mp hname
    exact ⟨f, hf, rfl, Option.some.inj ((get?_digestsOf hnodup hf).symm.trans h)⟩
  · rw [get?_digestsOf_of_notMem hname] at h
    contradiction

end Digests

/-- Where a run stands after some of its files: what it knows and what the directory holds are as
these files make them, and for the rest as they were. -/
structure Progress (directory : String) (known : Table String) (before : List (String × FileTree))
    (done : List SourceFile) (c : OutputCache) (entries : List (String × FileTree)) : Prop where
  directory_eq : c.directory = directory
  emitted : ∀ name, name ∈ c.emitted ↔ name ∈ done.map (·.hintName)
  sorted : c.entries.Sorted
  known_done : ∀ f ∈ done, c.entries.get? f.hintName = some f.hash
  known_others : ∀ name, name ∉ done.map (·.hintName) → c.entries.get? name = known.get? name
  holds_done : ∀ f ∈ done, canHold directory f.hintName = true ∧
    Table.get? entries f.hintName = some (.file (some f.text))
  holds_others : ∀ name, name ∉ done.map (·.hintName) →
    Table.get? entries name = Table.get? before name

namespace Progress

variable {directory : String} {known : Table String} {before entries : List (String × FileTree)}
  {done todo : List SourceFile} {c c' : OutputCache} {f : SourceFile} {m m' : Machine} {b : Bool}
  {ws : List Bool}

/-- A file that the cache knows under its digest and finds in the directory has its text there. -/
def Trustworthy (directory : String) (known : Table String) (before : List (String × FileTree))
    (f : SourceFile) : Prop :=
  known.get? f.hintName = some f.hash → canHold directory f.hintName = true →
    ∀ content, Table.get? before f.hintName = some (.file content) → content = some f.text

theorem start (hknown : known.Sorted) (before : List (String × FileTree)) :
    Progress directory known before [] { directory, entries := known, emitted := [] } before :=
  { directory_eq := rfl
    emitted := fun _ => Iff.rfl
    sorted := hknown
    known_done := fun _ hf => absurd hf List.not_mem_nil
    known_others := fun _ _ => rfl
    holds_done := fun _ hf => absurd hf List.not_mem_nil
    holds_others := fun _ _ => rfl }

theorem notMem_names_append {name : String} (h : name ∉ (done ++ [f]).map (·.hintName)) :
    name ∉ done.map (·.hintName) ∧ f.hintName ≠ name := by
  simp only [List.map_append, List.map_singleton, List.mem_append, List.mem_singleton, not_or] at h
  exact ⟨h.1, Ne.symm h.2⟩

theorem emitted_noting (h : Progress directory known before done c entries) (f : SourceFile)
    (name : String) : name ∈ (c.noting f).emitted ↔ name ∈ (done ++ [f]).map (·.hintName) := by
  rw [OutputCache.noting, List.mem_cons, h.emitted, List.map_append, List.mem_append,
    List.map_singleton, List.mem_singleton, or_comm]

theorem passed (h : Progress directory known before done c entries)
    (hhash : c.entries.get? f.hintName = some f.hash)
    (hhold : canHold directory f.hintName = true)
    (htext : Table.get? entries f.hintName = some (.file (some f.text))) :
    Progress directory known before (done ++ [f]) (c.noting f) entries := by
  refine ⟨h.directory_eq, h.emitted_noting f, h.sorted, ?_, ?_, ?_, ?_⟩
  · exact List.forall_mem_append.mpr ⟨h.known_done, List.forall_mem_singleton.mpr hhash⟩
  · intro name hn
    exact h.known_others name (notMem_names_append hn).1
  · exact List.forall_mem_append.mpr
      ⟨h.holds_done, List.forall_mem_singleton.mpr ⟨hhold, htext⟩⟩
  · intro name hn
    exact h.holds_others name (notMem_names_append hn).1

theorem wrote (h : Progress directory known before done c entries)
    (hnew : f.hintName ∉ done.map (·.hintName)) (hhold : canHold directory f.hintName = true) :
    Progress directory known before (done ++ [f])
      { c.noting f with entries := c.entries.insert f.hintName f.hash }
      (Table.insert f.hintName (.file (some f.text)) entries) := by
  have hother : ∀ g ∈ done, f.hintName ≠ g.hintName :=
    fun g hg he => hnew (he ▸ List.mem_map_of_mem hg)
  refine ⟨h.directory_eq, h.emitted_noting f, h.sorted.insert _ _, ?_, ?_, ?_, ?_⟩
  · refine List.forall_mem_append.mpr ⟨fun g hg => ?_, List.forall_mem_singleton.mpr ?_⟩
    · rw [Table.get?_insert, if_neg (hother g hg), h.known_done g hg]
    · rw [Table.get?_insert, if_pos rfl]
  · intro name hn
    obtain ⟨hdone, hne⟩ := notMem_names_append hn
    rw [Table.get?_insert, if_neg hne, h.known_others name hdone]
  · refine List.forall_mem_append.mpr ⟨fun g hg => ?_, List.forall_mem_singleton.mpr ?_⟩
    · rw [Table.get?_insert, if_neg (hother g hg)]
      exact h.holds_done g hg
    · rw [Table.get?_insert, if_pos rfl]
      exact ⟨hhold, rfl⟩
  · intro name hn
    obtain ⟨hdone, hne⟩ := notMem_names_append hn
    rw [Table.get?_insert, if_neg hne, h.holds_others name hdone]

theorem write (h : Progress directory known before done c entries)
    (hhas : m.tree.HasDirectory directory entries) (hname : IsPlainName f.hintName)
    (hnew : f.hintName ∉ done.map (·.hintName)) (htrust : Trustworthy directory known before f)
    (hrun : (c.write f : StateM Machine _).run m = ((c', .ok b), m')) :
    ∃ entries', m'.tree.HasDirectory directory entries' ∧
      Progress directory known before (done ++ [f]) c' entries' := by
  obtain ⟨rfl⟩ := h.directory_eq
  have hemitted := OutputCache.emitted_run_write c f m
  have hcases := OutputCache.run_write f m hhas hname
  rw [hrun] at hemitted hcases
  obtain ⟨directory', entries', emitted'⟩ := c'
  obtain ⟨hdirectory, hcases⟩ := hcases
  dsimp only at hdirectory hemitted hcases
  subst hdirectory hemitted
  rcases hcases with ⟨-, rfl, ht, hhash, hfile⟩ | ⟨-, rfl, ht, hhold⟩ | ⟨⟨e, he⟩, -⟩
  · rw [OutputCache.path, hhas.fileAt_eq hname, Bool.and_eq_true] at hfile
    obtain ⟨hhold, hfile⟩ := hfile
    -- no file of this name has been written yet, so both the digest and the file are old
    have htext : Table.get? entries f.hintName = some (.file (some f.text)) := by
      rw [h.known_others _ hnew] at hhash
      rw [h.holds_others _ hnew] at hfile ⊢
      rcases hg : Table.get? before f.hintName with - | ⟨content⟩ | ⟨below⟩
      · simp [hg] at hfile
      · rw [htrust hhash hhold content hg]
      · simp [hg, isDirectory] at hfile
    exact ⟨entries, ht ▸ hhas, h.passed hhash hhold htext⟩
  · exact ⟨_, ht, h.wrote hnew hhold⟩
  · cases he

theorem writeAll (h : Progress directory known before done c entries)
    (hhas : m.tree.HasDirectory directory entries) (hnames : ∀ f ∈ todo, IsPlainName f.hintName)
    (hnodup : ((done ++ todo).map (·.hintName)).Nodup)
    (htrust : ∀ f ∈ todo, Trustworthy directory known before f)
    (hrun : (c.writeAll todo : StateM Machine _).run m = ((c', .ok ws), m')) :
    ∃ entries', m'.tree.HasDirectory directory entries' ∧
      Progress directory known before (done ++ todo) c' entries' := by
  -- each step moves one file from those to come to those done
  induction todo generalizing done c m entries ws with
  | nil =>
    cases hrun
    exact ⟨entries, hhas, (List.append_nil done).symm ▸ h⟩
  | cons f todo ih =>
    obtain ⟨c₁, m₁, b, bs, -, hfirst, hrest⟩ := OutputCache.run_writeAll_cons.mp hrun
    have hnew : f.hintName ∉ done.map (·.hintName) := by
      rw [List.map_append, List.nodup_append] at hnodup
      intro hf
      exact hnodup.2.2 _ hf f.hintName List.mem_cons_self rfl
    obtain ⟨entries₁, hhas₁, hprogress⟩ := h.write hhas (hnames f List.mem_cons_self) hnew
      (htrust f List.mem_cons_self) hfirst
    rw [List.append_cons] at hnodup ⊢
    exact ih hprogress hhas₁ (fun g hg => hnames g (List.mem_cons_of_mem _ hg)) hnodup
      (fun g hg => htrust g (List.mem_cons_of_mem _ hg)) hrest

section Flush

variable {files : List SourceFile} {name : String}

theorem mem_names (h : Progress directory known before files c entries)
    (hname : name ∈ c.entries.map (·.1)) :
    name ∈ files.map (·.hintName) ∨ name ∈ known.map (·.1) := by
  by_cases hf : name ∈ files.map (·.hintName)
  · exact .inl hf
  · rw [← Table.get?_isSome_iff, h.known_others name hf, Table.get?_isSome_iff] at hname
    exact .inr hname

theorem mem_stale_iff (h : Progress directory known before files c entries) :
    name ∈ c.stale ↔ name ∈ known.map (·.1) ∧ name ∉ files.map (·.hintName) := by
  rw [OutputCache.mem_stale_iff, h.emitted]
  refine and_congr_left fun hf => ?_
  rw [← Table.get?_isSome_iff, ← Table.get?_isSome_iff, h.known_others name hf]

theorem notMem_stale (h : Progress directory known before files c entries)
    (hf : name ∈ files.map (·.hintName)) : name ∉ c.stale :=
  fun hs => (h.mem_stale_iff.mp hs).2 hf

/-- Without its stale names the cache knows the files of the run. -/
theorem eraseAll_stale (h : Progress directory known before files c entries)
    (hnodup : (files.map (·.hintName)).Nodup) : c.entries.eraseAll c.stale = digestsOf files := by
  refine (h.sorted.eraseAll _).ext (sorted_digestsOf files) fun name => ?_
  rw [Table.get?_eraseAll]
  by_cases hf : name ∈ files.map (·.hintName)
  · rw [if_neg (h.notMem_stale hf)]
    obtain ⟨f, hfile, rfl⟩ := List.mem_map.mp hf
    rw [h.known_done f hfile]
    exact (get?_digestsOf hnodup hfile).symm
  · rw [h.known_others name hf]
    refine Eq.trans ?_ (get?_digestsOf_of_notMem hf).symm
    split
    next => rfl
    next hs =>
      rw [h.mem_stale_iff, ← Table.get?_isSome_iff] at hs
      simpa [hf] using hs

end Flush

end Progress

namespace OutputCache

variable {directory : String} {files : List SourceFile} {c : OutputCache} {f : SourceFile}
  {m m' : Machine} {ws : List Bool} {n : Nat} {t t' : FileTree} {name : String}

/-- The digest of content, where that of content which is not text is given. -/
def contentDigest (binary : String) : Option String → String
  | some text => digest text
  | none => binary

/-- The manifest lists names of files only, and of those that are there the digests. What is no text
may have any digest. -/
structure IsAccurate (binary : String → String) (directory : String) (t : FileTree) : Prop where
  names : ∀ name ∈ (listed directory t).map (·.1), IsUnitName name
  digests : ∀ name hash, (listed directory t).get? name = some hash →
    t.fileAt (joinPath directory name) = true →
      contentDigest (binary name) (t.textAt? (joinPath directory name)) = hash

/-- What a run leaves in a directory. -/
structure Rebuilds (directory : String) (files : List SourceFile) (before after : FileTree) :
    Prop where
  emitted : ∀ f ∈ files, after.textAt? (joinPath directory f.hintName) = some f.text
  dropped : ∀ name ∈ (listed directory before).map (·.1), name ∉ files.map (·.hintName) →
    after.fileAt (joinPath directory name) = false
  kept : ∃ entries entries', before.HasDirectory directory entries ∧
    after.HasDirectory directory entries' ∧
    ∀ name, name ≠ manifestName → name ∉ (listed directory before).map (·.1) →
      name ∉ files.map (·.hintName) → Table.get? entries' name = Table.get? entries name
  manifest : (after.textAt? (joinPath directory manifestName)).bind Manifest.parse? =
    some (digestsOf files)

theorem sorted_listed (directory : String) (t : FileTree) : (listed directory t).Sorted := by
  rw [listed]
  cases h : (t.textAt? (joinPath directory manifestName)).bind Manifest.parse? with
  | none => exact .nil
  | some entries =>
    obtain ⟨text, -, htext⟩ := Option.bind_eq_some_iff.mp h
    exact Manifest.sorted_of_parse? htext

theorem trustworthy_of_isAccurate {binary : String → String} {entries : List (String × FileTree)}
    (h : IsAccurate binary directory t) (hhas : t.HasDirectory directory entries)
    (hname : IsUnitName f.hintName) (hhash : f.hash = digest f.text)
    (hcollision : t.fileAt (joinPath directory f.hintName) = true →
      contentDigest (binary f.hintName) (t.textAt? (joinPath directory f.hintName)) =
        digest f.text → t.textAt? (joinPath directory f.hintName) = some f.text) :
    Progress.Trustworthy directory (listed directory t) entries f := by
  intro hknown hhold content hcontent
  have hfile : t.fileAt (joinPath directory f.hintName) = true := by
    rw [hhas.fileAt_eq hname.toIsPlainName, hhold, hcontent]
    rfl
  have htext : t.textAt? (joinPath directory f.hintName) = content := by
    rw [hhas.textAt?_eq hname.toIsPlainName, if_pos hhold, hcontent]
  rw [← htext]
  exact hcollision hfile ((h.digests _ _ hknown hfile).trans hhash)

theorem rebuilds_of_progress {before after : FileTree} {old entries : List (String × FileTree)}
    (h : Progress directory (listed directory before) old files c entries)
    (hbefore : before.HasDirectory directory old)
    (hafter : after.HasDirectory directory (Table.insert manifestName
      (.file (some (Manifest.write (digestsOf files)))) (Table.eraseAll entries c.stale)))
    (hhold : canHold directory manifestName = true)
    (hlisted : ∀ name ∈ (listed directory before).map (·.1), IsUnitName name)
    (hnames : ∀ f ∈ files, IsUnitName f.hintName) : Rebuilds directory files before after := by
  refine ⟨?_, ?_, ⟨old, _, hbefore, hafter, ?_⟩, ?_⟩
  · intro f hf
    obtain ⟨hfile, htext⟩ := h.holds_done f hf
    rw [hafter.textAt?_eq (hnames f hf).toIsPlainName, if_pos hfile, Table.get?_insert,
      if_neg (hnames f hf).ne_manifest.symm, Table.get?_eraseAll,
      if_neg (h.notMem_stale (List.mem_map_of_mem hf)), htext]
  · intro name hname hf
    rw [hafter.fileAt_eq (hlisted name hname).toIsPlainName, Table.get?_insert,
      if_neg (hlisted name hname).ne_manifest.symm, Table.get?_eraseAll,
      if_pos (h.mem_stale_iff.mpr ⟨hname, hf⟩)]
    simp only [Option.map_none, Option.getD_none, Bool.and_false]
  · intro name hmanifest hname hf
    rw [Table.get?_insert, if_neg hmanifest.symm, Table.get?_eraseAll,
      if_neg fun hs => hname (h.mem_stale_iff.mp hs).1, h.holds_others name hf]
  · rw [hafter.textAt?_eq isPlainName_manifestName, if_pos hhold, Table.get?_insert, if_pos rfl]
    show (some (Manifest.write (digestsOf files))).bind Manifest.parse? = _
    rw [Option.bind_some, Manifest.parse?_write (sorted_digestsOf files)]

theorem Rebuilds.listed_eq {before after : FileTree}
    (h : Rebuilds directory files before after) : listed directory after = digestsOf files := by
  rw [listed, h.manifest, Option.getD_some]

theorem isAccurate_of_listed_eq (hlisted : listed directory t = digestsOf files)
    (htext : ∀ f ∈ files, t.textAt? (joinPath directory f.hintName) = some f.text)
    (hnames : ∀ f ∈ files, IsUnitName f.hintName) (hnodup : (files.map (·.hintName)).Nodup)
    (hhash : ∀ f ∈ files, f.hash = digest f.text) (binary : String → String) :
    IsAccurate binary directory t := by
  constructor
  · intro name hname
    rw [hlisted, ← Table.get?_isSome_iff] at hname
    obtain ⟨hash, hget⟩ := Option.isSome_iff_exists.mp hname
    obtain ⟨f, hf, rfl, -⟩ := mem_of_get?_digestsOf hnodup hget
    exact hnames f hf
  · intro name hash hget _
    rw [hlisted] at hget
    obtain ⟨f, hf, rfl, rfl⟩ := mem_of_get?_digestsOf hnodup hget
    rw [htext f hf, hhash f hf]
    rfl

section Again

/-- The cache as it is when the directory has been opened. -/
def opened (directory : String) (t : FileTree) : OutputCache :=
  { directory, entries := listed directory t, emitted := [] }

theorem run_openAt_made (hmade : t.makeDirectories directory = (true, t')) :
    (openAt directory : StateM Machine _).run ⟨t, []⟩ =
      (.ok (opened directory t'), ⟨t', []⟩) := by
  have hdone : (FileStore.makeDirectories directory : StateM Machine Bool).run ⟨t, []⟩ =
      (true, ⟨t', []⟩) := by
    have hrun : (FileStore.makeDirectories directory : StateM FileTree Bool).run t = (true, t') :=
      hmade
    refine (Machine.run_attempt (by simp)).trans ?_
    rw [hrun]
    rfl
  rw [openAt, Machine.run_bind, hdone, if_pos rfl, Machine.run_bind,
    Machine.run_readText?_of_ne (by simp)]
  rfl

theorem run_writeAll_again (hknown : ∀ f ∈ files, c.entries.get? f.hintName = some f.hash)
    (hfile : ∀ f ∈ files, t.fileAt (c.path f.hintName) = true) :
    (c.writeAll files : StateM Machine _).run ⟨t, []⟩ =
      (({ c with emitted := (files.map (·.hintName)).reverse ++ c.emitted },
        .ok (files.map fun _ => false)), ⟨t, []⟩) := by
  induction files generalizing c with
  | nil => rfl
  | cons f files ih =>
    have hrest := ih (c := c.noting f) (fun g hg => hknown g (List.mem_cons_of_mem _ hg))
      fun g hg => hfile g (List.mem_cons_of_mem _ hg)
    rw [writeAll, Machine.run_bind,
      run_write_fresh (hknown f List.mem_cons_self) (hfile f List.mem_cons_self)]
    dsimp only
    rw [Machine.run_bind, hrest]
    simp only [noting, List.map_cons, List.reverse_cons, List.append_assoc, List.singleton_append]
    rfl

theorem run_flush_of_stale_eq_nil (hstale : c.stale = [])
    (hwrite : t.write? c.manifestPath (some (Manifest.write c.entries)) = some t') :
    (c.flush : StateM Machine _).run ⟨t, []⟩ = ((c, .ok 0), ⟨t', []⟩) := by
  have hremoved : (c.removeFiles c.stale : StateM Machine _).run ⟨t, []⟩ =
      ((c, .ok ()), ⟨t, []⟩) := by
    rw [hstale]
    rfl
  rw [run_flush_of_ok (by rw [hremoved]), hremoved]
  simp only [Machine.run_writeText_of_write? hwrite, hstale]
  rfl

theorem run_cachedRun_again (hmade : t.makeDirectories directory = (true, t))
    (hlisted : listed directory t = digestsOf files)
    (hknown : ∀ f ∈ files, (digestsOf files).get? f.hintName = some f.hash)
    (hfile : ∀ f ∈ files, t.fileAt (joinPath directory f.hintName) = true)
    (hwrite : t.write? (joinPath directory manifestName)
      (some (Manifest.write (digestsOf files))) = some t) :
    (cachedRun directory files : StateM Machine _).run ⟨t, []⟩ =
      (.ok (files.map fun _ => false, 0), ⟨t, []⟩) := by
  have hopened : opened directory t = { directory, entries := digestsOf files, emitted := [] } := by
    rw [opened, hlisted]
  have hwrites := run_writeAll_again (t := t)
    (c := { directory, entries := digestsOf files, emitted := [] }) hknown hfile
  refine run_cachedRun (hopened ▸ run_openAt_made hmade) hwrites
    (run_flush_of_stale_eq_nil ?_ hwrite)
  exact List.filter_eq_nil_iff.mpr fun name hname => by simpa using mem_names_digestsOf hname

end Again

/-- A run over an accurate directory leaves what writing every file afresh leaves there, and an
accurate directory. When it is run once more, it writes nothing, drops nothing and changes
nothing. The second file operation is the one that reads the manifest. -/
theorem cachedRun_rebuilds {binary : String → String} (hread : m.faults[1]? ≠ some true)
    (hrun : (cachedRun directory files : StateM Machine _).run m = (.ok (ws, n), m'))
    (haccurate : IsAccurate binary directory (m.tree.makeDirectories directory).2)
    (hnames : ∀ f ∈ files, IsUnitName f.hintName) (hnodup : (files.map (·.hintName)).Nodup)
    (hhash : ∀ f ∈ files, f.hash = digest f.text)
    (hcollision : let t := (m.tree.makeDirectories directory).2
      ∀ f ∈ files, t.fileAt (joinPath directory f.hintName) = true →
        contentDigest (binary f.hintName) (t.textAt? (joinPath directory f.hintName)) =
          digest f.text → t.textAt? (joinPath directory f.hintName) = some f.text) :
    Rebuilds directory files (m.tree.makeDirectories directory).2 m'.tree ∧
      IsAccurate binary directory m'.tree ∧
      (cachedRun directory files : StateM Machine _).run ⟨m'.tree, []⟩ =
        (.ok (files.map fun _ => false, 0), ⟨m'.tree, []⟩) := by
  obtain ⟨c, c₁, c₂, m₀, m₁, hopen, hwrites, hflush⟩ := run_cachedRun_ok hrun
  obtain ⟨hmade, rfl⟩ := run_openAt_ok hread hopen
  rw [hmade] at haccurate hcollision ⊢
  dsimp only at haccurate hcollision ⊢
  obtain ⟨before, hbefore⟩ := hasDirectory_of_makeDirectories hmade
  -- with accurate digests a file that is passed over is as if it had been written
  have htrust : ∀ f ∈ files, Progress.Trustworthy directory (listed directory m₀.tree) before f :=
    fun f hf => trustworthy_of_isAccurate haccurate hbefore (hnames f hf) (hhash f hf)
      (hcollision f hf)
  obtain ⟨entries, hhas, hprogress⟩ :=
    (Progress.start (sorted_listed directory m₀.tree) before).writeAll hbefore
      (fun f hf => (hnames f hf).toIsPlainName) hnodup htrust hwrites
  rw [List.nil_append] at hprogress
  have hplain : ∀ name ∈ c₁.entries.map (·.1), IsPlainName name := by
    intro name hname
    rcases hprogress.mem_names hname with hf | hlisted
    · obtain ⟨f, hfile, rfl⟩ := List.mem_map.mp hf
      exact (hnames f hfile).toIsPlainName
    · exact (haccurate.names name hlisted).toIsPlainName
  obtain rfl := hprogress.directory_eq
  obtain ⟨-, hhold, hafter, hagain⟩ := run_flush_ok hhas hplain (by rw [hflush])
  rw [hprogress.eraseAll_stale hnodup, hflush] at hafter hagain
  dsimp only at hafter hagain
  have hrebuilds := rebuilds_of_progress hprogress hbefore hafter hhold haccurate.names hnames
  have hfile : ∀ f ∈ files, m'.tree.fileAt (joinPath c₁.directory f.hintName) = true :=
    fun f hf => fileAt_of_textAt? (hrebuilds.emitted f hf)
  exact ⟨hrebuilds,
    isAccurate_of_listed_eq hrebuilds.listed_eq hrebuilds.emitted hnames hnodup hhash binary,
    run_cachedRun_again (hafter.makeDirectories (isPath_of_makeDirectories hmade))
      hrebuilds.listed_eq (fun f hf => get?_digestsOf hnodup hf) hfile hagain⟩

def earlierFiles : List SourceFile := [.ofText "A.g.cs" "a", .ofText "B.g.cs" "b"]

def laterFiles : List SourceFile := [.ofText "B.g.cs" "b", .ofText "C.g.cs" "c"]

/-- The earlier files with their manifest, and a file that is no text. -/
def earlierTree : FileTree :=
  .directory [("out", .directory
    [(manifestName, .file (some (Manifest.write (digestsOf earlierFiles)))),
      ("A.g.cs", .file (some "a")), ("B.g.cs", .file (some "b")), ("logo.png", .file none)])]

theorem hasDirectory_earlierTree : earlierTree.HasDirectory "out"
    [(manifestName, .file (some (Manifest.write (digestsOf earlierFiles)))),
      ("A.g.cs", .file (some "a")), ("B.g.cs", .file (some "b")), ("logo.png", .file none)] :=
  ⟨["out"], rfl⟩

theorem listed_earlierTree : listed "out" earlierTree = digestsOf earlierFiles := by
  rw [listed, hasDirectory_earlierTree.textAt?_eq isPlainName_manifestName,
    if_pos (by decide +kernel),
    Table.get?_cons, if_pos rfl, Option.bind_some,
    Manifest.parse?_write (sorted_digestsOf earlierFiles), Option.getD_some]

theorem isAccurate_earlierTree : IsAccurate (fun _ => "") "out" earlierTree := by
  refine isAccurate_of_listed_eq listed_earlierTree ?_ ?_ (by decide) ?_ _ <;>
    simp only [earlierFiles, List.forall_mem_cons, List.not_mem_nil, false_implies, implies_true,
      and_true]
  · exact ⟨by decide +kernel, by decide +kernel⟩
  · exact ⟨by decide, by decide⟩
  · exact ⟨rfl, rfl⟩

theorem makeDirectories_earlierTree : earlierTree.makeDirectories "out" = (true, earlierTree) :=
  hasDirectory_earlierTree.makeDirectories (by decide +kernel)

theorem isUnitName_laterFiles : ∀ f ∈ laterFiles, IsUnitName f.hintName := by
  simp only [laterFiles, List.forall_mem_cons, List.not_mem_nil, false_implies, implies_true,
    and_true]
  exact ⟨by decide, by decide⟩

theorem hash_eq_laterFiles : ∀ f ∈ laterFiles, f.hash = digest f.text := by
  simp only [laterFiles, List.forall_mem_cons, List.not_mem_nil, false_implies, implies_true,
    and_true]
  exact ⟨rfl, rfl⟩

/-- What is there under the name of a later file is that file. -/
theorem textAt?_laterFiles : ∀ f ∈ laterFiles, earlierTree.fileAt (joinPath "out" f.hintName) = true →
    earlierTree.textAt? (joinPath "out" f.hintName) = some f.text := by
  simp only [laterFiles, List.forall_mem_cons, List.not_mem_nil, false_implies, implies_true,
    and_true]
  exact ⟨fun _ => by decide +kernel, fun h => absurd h (by decide +kernel)⟩

set_option maxRecDepth 100000 in
theorem cachedRun_laterFiles :
    ((cachedRun "out" laterFiles : StateM Machine _).run ⟨earlierTree, []⟩).1 =
      .ok ([false, true], 1) := by
  decide +kernel

/-- One file is passed over, one is written, one is dropped, and one is none of the cache. -/
theorem cachedRun_rebuilds_laterFiles :
    let after := ((cachedRun "out" laterFiles : StateM Machine _).run ⟨earlierTree, []⟩).2.tree
    Rebuilds "out" laterFiles earlierTree after ∧ IsAccurate (fun _ => "") "out" after ∧
      (cachedRun "out" laterFiles : StateM Machine _).run ⟨after, []⟩ =
        (.ok ([false, false], 0), ⟨after, []⟩) := by
  have houtcome := cachedRun_laterFiles
  rcases hrun : (cachedRun "out" laterFiles : StateM Machine _).run ⟨earlierTree, []⟩ with ⟨r, m'⟩
  rw [hrun] at houtcome
  obtain rfl : r = .ok ([false, true], 1) := houtcome
  have hbefore : (earlierTree.makeDirectories "out").2 = earlierTree :=
    congrArg (·.2) makeDirectories_earlierTree
  have hresult := cachedRun_rebuilds (m := ⟨earlierTree, []⟩) (by simp) hrun
    (hbefore.symm ▸ isAccurate_earlierTree) isUnitName_laterFiles (by decide) hash_eq_laterFiles
    (hbefore.symm ▸ fun f hf hfile _ => textAt?_laterFiles f hf hfile)
  rw [hbefore] at hresult
  exact hresult

set_option maxRecDepth 100000 in
theorem cachedRun_unread :
    let r := (cachedRun "out" laterFiles : StateM Machine _).run ⟨earlierTree, [false, true]⟩
    r.1 = .ok ([true, true], 0) ∧ r.2.tree.fileAt (joinPath "out" "A.g.cs") = true := by
  decide +kernel

/-- A manifest that cannot be read counts as empty, so that a file it lists can outlast a run that
goes well and does not write it. -/
theorem cachedRun_unreadManifest :
    let m : Machine := ⟨earlierTree, [false, true]⟩
    let r := (cachedRun "out" laterFiles : StateM Machine _).run m
    r.1 = .ok ([true, true], 0) ∧
      m.tree.makeDirectories "out" = (true, earlierTree) ∧
      IsAccurate (fun _ => "") "out" earlierTree ∧
      (∀ f ∈ laterFiles, IsUnitName f.hintName) ∧ (laterFiles.map (·.hintName)).Nodup ∧
      (∀ f ∈ laterFiles, f.hash = digest f.text) ∧
      (∀ f ∈ laterFiles, earlierTree.fileAt (joinPath "out" f.hintName) = true →
        earlierTree.textAt? (joinPath "out" f.hintName) = some f.text) ∧
      "A.g.cs" ∈ (listed "out" earlierTree).map (·.1) ∧
      "A.g.cs" ∉ laterFiles.map (·.hintName) ∧
      r.2.tree.fileAt (joinPath "out" "A.g.cs") = true ∧
      ¬ Rebuilds "out" laterFiles earlierTree r.2.tree := by
  obtain ⟨hok, hfile⟩ := cachedRun_unread
  have hlisted : "A.g.cs" ∈ (listed "out" earlierTree).map (·.1) := by
    rw [listed_earlierTree]
    decide
  have hgone : "A.g.cs" ∉ laterFiles.map (·.hintName) := by decide
  refine ⟨hok, makeDirectories_earlierTree, isAccurate_earlierTree, isUnitName_laterFiles,
    by decide, hash_eq_laterFiles, textAt?_laterFiles, hlisted, hgone, hfile, fun h => ?_⟩
  exact Bool.false_ne_true ((h.dropped _ hlisted hgone).symm.trans hfile)

end OutputCache

end Bindable
