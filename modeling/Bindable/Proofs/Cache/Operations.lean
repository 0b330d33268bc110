import Bindable.Proofs.Cache.Machine
import Bindable.Proofs.Cache.Manifest

/-! What the operations on an output directory come to, whichever file operations fail. -/

namespace Bindable

/-- A name that a file of the output can have. -/
structure IsUnitName (name : String) : Prop extends IsPlainName name where
  ne_manifest : name ≠ manifestName

instance : DecidablePred IsUnitName := fun name =>
  decidable_of_iff (IsPlainName name ∧ name ≠ manifestName)
    ⟨fun ⟨hplain, hmanifest⟩ => ⟨hplain, hmanifest⟩, fun h => ⟨h.toIsPlainName, h.ne_manifest⟩⟩

theorem isPlainName_manifestName : IsPlainName manifestName := by decide

namespace OutputCache

open FileTree

variable {c : OutputCache} {f : SourceFile} {m : Machine} {entries : List (String × FileTree)}

theorem run_isFresh (c : OutputCache) (f : SourceFile) (m : Machine) :
    let r := (c.isFresh f : StateM Machine Bool).run m
    r.2.tree = m.tree ∧
      (r.1 = true → c.entries.get? f.hintName = some f.hash ∧
        m.tree.fileAt (c.path f.hintName) = true) ∧
      (m.faults = [] → c.entries.get? f.hintName = some f.hash →
        m.tree.fileAt (c.path f.hintName) = true → r.1 = true) := by
  obtain ⟨ht, hfile, hsure⟩ := m.run_isFile (c.path f.hintName)
  rw [isFresh]
  by_cases h : c.entries.get? f.hintName = some f.hash
  · rw [if_pos h]
    exact ⟨ht, fun hr => ⟨h, hfile hr⟩, fun hf _ hat => (hsure hf).trans hat⟩
  · rw [if_neg h]
    exact ⟨rfl, fun hr => absurd hr Bool.false_ne_true, fun _ he => absurd he h⟩

def noting (c : OutputCache) (f : SourceFile) : OutputCache :=
  { c with emitted := f.hintName :: c.emitted }

/-- The cache after a file has been asked for. -/
def recorded (c : OutputCache) (f : SourceFile) : OutputCache :=
  { c.noting f with entries := c.entries.insert f.hintName f.hash }

theorem run_write_eq (c : OutputCache) (f : SourceFile) (m : Machine) :
    let fresh := ((c.noting f).isFresh f : StateM Machine Bool).run m
    let written :=
      (FileStore.writeText (c.path f.hintName) f.text : StateM Machine Bool).run fresh.2
    (c.write f : StateM Machine _).run m =
      if fresh.1 then ((c.noting f, .ok false), fresh.2)
      else if written.1 then ((c.recorded f, .ok true), written.2)
      else ((c.noting f, .error (.io (c.path f.hintName))), written.2) := by
  intro fresh written
  rw [write, Machine.run_bind]
  show StateT.run (if fresh.1 then _ else _) fresh.2 = _
  by_cases hfresh : fresh.1 = true
  · rw [if_pos hfresh, if_pos hfresh]
    rfl
  rw [if_neg hfresh, if_neg hfresh, Machine.run_bind]
  show StateT.run (if written.1 then _ else _) written.2 = _
  by_cases hwritten : written.1 = true
  · rw [if_pos hwritten, if_pos hwritten]
    rfl
  · rw [if_neg hwritten, if_neg hwritten]
    rfl

/-- A file is left alone because it is fresh, or it is written, or it cannot be written. -/
theorem run_write (f : SourceFile) (m : Machine)
    (h : m.tree.HasDirectory c.directory entries) (hname : IsPlainName f.hintName) :
    let r := (c.write f : StateM Machine _).run m
    r.1.1.directory = c.directory ∧
      (r.1.2 = .ok false ∧ r.1.1.entries = c.entries ∧ r.2.tree = m.tree ∧
        c.entries.get? f.hintName = some f.hash ∧ m.tree.fileAt (c.path f.hintName) = true ∨
      r.1.2 = .ok true ∧ r.1.1.entries = c.entries.insert f.hintName f.hash ∧
        r.2.tree.HasDirectory c.directory
          (Table.insert f.hintName (.file (some f.text)) entries) ∧
        canHold c.directory f.hintName = true ∨
      (∃ e, r.1.2 = .error e) ∧ r.1.1.entries = c.entries ∧ r.2.tree = m.tree) := by
  intro r
  obtain ⟨ht, hfresh, -⟩ := run_isFresh (c.noting f) f m
  have hr : r = _ := run_write_eq c f m
  rw [hr]
  split
  next h' => exact ⟨rfl, .inl ⟨rfl, rfl, ht, hfresh h'⟩⟩
  rcases Machine.run_writeText (((c.noting f).isFresh f : StateM Machine Bool).run m).2
    (c.path f.hintName) f.text with ⟨hw, htree⟩ | ⟨hw, htree⟩
  · rw [if_neg (hw ▸ Bool.false_ne_true)]
    exact ⟨rfl, .inr (.inr ⟨⟨_, rfl⟩, rfl, htree.trans ht⟩)⟩
  · rw [if_pos hw]
    rw [ht] at htree
    obtain ⟨hdirectory, hhold, -⟩ := h.write? hname htree
    exact ⟨rfl, .inr (.inl ⟨rfl, rfl, hdirectory, hhold⟩)⟩

theorem run_write_of_fresh (hfaults : m.faults = [])
    (hhash : c.entries.get? f.hintName = some f.hash)
    (hfile : m.tree.fileAt (c.path f.hintName) = true) :
    ((c.write f : StateM Machine _).run m).1.2 = .ok false := by
  obtain ⟨-, -, hsure⟩ := run_isFresh (c.noting f) f m
  have hr := run_write_eq c f m
  simp only [if_pos (hsure hfaults hhash hfile)] at hr
  rw [hr]

theorem run_isFresh_eq (c : OutputCache) (f : SourceFile) (t : FileTree) :
    (c.isFresh f : StateM Machine Bool).run ⟨t, []⟩ =
      (decide (c.entries.get? f.hintName = some f.hash) && t.fileAt (c.path f.hintName),
        ⟨t, []⟩) := by
  rw [isFresh]
  by_cases h : c.entries.get? f.hintName = some f.hash
  · rw [if_pos h, decide_eq_true h, Bool.true_and]
    exact Machine.run_isFile_eq t (c.path f.hintName)
  · rw [if_neg h, decide_eq_false h, Bool.false_and]
    rfl

/-- What a write does without failures. -/
theorem run_write_eq_ite (c : OutputCache) (f : SourceFile) (t : FileTree) :
    (c.write f : StateM Machine _).run ⟨t, []⟩ =
      if c.entries.get? f.hintName = some f.hash ∧ t.fileAt (c.path f.hintName) = true then
        ((c.noting f, .ok false), ⟨t, []⟩)
      else
        match t.write? (c.path f.hintName) (some f.text) with
        | some t' => ((c.recorded f, .ok true), ⟨t', []⟩)
        | none => ((c.noting f, .error (.io (c.path f.hintName))), ⟨t, []⟩) := by
  have hfresh : ((c.noting f).isFresh f : StateM Machine Bool).run ⟨t, []⟩ =
      (decide (c.entries.get? f.hintName = some f.hash) && t.fileAt (c.path f.hintName),
        ⟨t, []⟩) := run_isFresh_eq (c.noting f) f t
  refine (run_write_eq c f ⟨t, []⟩).trans ?_
  simp only [hfresh, Machine.run_writeText_eq, Bool.and_eq_true, decide_eq_true_eq]
  cases t.write? (c.path f.hintName) (some f.text) <;> rfl

theorem run_write_fresh {t : FileTree} (hhash : c.entries.get? f.hintName = some f.hash)
    (hfile : t.fileAt (c.path f.hintName) = true) :
    (c.write f : StateM Machine _).run ⟨t, []⟩ = ((c.noting f, .ok false), ⟨t, []⟩) := by
  rw [run_write_eq_ite, if_pos ⟨hhash, hfile⟩]

theorem emitted_run_write (c : OutputCache) (f : SourceFile) (m : Machine) :
    ((c.write f : StateM Machine _).run m).1.1.emitted = f.hintName :: c.emitted := by
  have hr : (c.write f : StateM Machine _).run m = _ := run_write_eq c f m
  rw [hr]
  split
  · rfl
  · split <;> rfl

theorem mem_stale_iff {name : String} :
    name ∈ c.stale ↔ name ∈ c.entries.map (·.1) ∧ name ∉ c.emitted := by
  simp [stale]

theorem run_removeFiles_cons (c : OutputCache) (name : String) (names : List String)
    (m : Machine) :
    let removed := (FileStore.removeFile (c.path name) : StateM Machine Removal).run m
    (c.removeFiles (name :: names) : StateM Machine _).run m =
      if removed.1 = .failed then ((c, .error (.io (c.path name))), removed.2)
      else ({ c with entries := c.entries.erase name }.removeFiles names : StateM Machine _).run
        removed.2 := by
  intro removed
  rw [removeFiles, Machine.run_bind]
  cases hremoved : removed.1 <;> rfl

/-- What every removal keeps up holds of the names that are gone when the loop stops. -/
theorem run_removeFiles_induction {P : List String → FileTree → Prop} (names : List String)
    (m : Machine) (hnil : P [] m.tree)
    (hremove : ∀ removed, ∀ name ∈ names, ∀ t, P removed t → (t.remove (c.path name)).1 ≠ .failed →
      P (removed ++ [name]) (t.remove (c.path name)).2) :
    let r := (c.removeFiles names : StateM Machine _).run m
    ∃ removed, removed <+: names ∧ r.1.1 = { c with entries := c.entries.eraseAll removed } ∧
      P removed r.2.tree ∧ (r.1.2 = .ok () ∧ removed = names ∨ ∃ e, r.1.2 = .error e) := by
  induction names generalizing c m P with
  | nil => exact ⟨[], List.prefix_rfl, rfl, hnil, .inl ⟨rfl, rfl⟩⟩
  | cons name names ih =>
    intro r
    have hr : r = _ := run_removeFiles_cons c name names m
    by_cases hf : ((FileStore.removeFile (c.path name) : StateM Machine Removal).run m).1 = .failed
    · have hsame : ((FileStore.removeFile (c.path name) : StateM Machine Removal).run m).2.tree =
          m.tree := by
        rcases m.run_removeFile (c.path name) with ⟨-, ht⟩ | ⟨hfailed, ht⟩
        · exact ht
        · exact ht.trans (m.tree.remove_of_failed (hfailed.symm.trans hf))
      refine ⟨[], List.nil_prefix, ?_⟩
      rw [hr, if_pos hf]
      exact ⟨rfl, hsame ▸ hnil, .inr ⟨_, rfl⟩⟩
    · rcases m.run_removeFile (c.path name) with ⟨hfailed, -⟩ | ⟨hdone, ht⟩
      · exact absurd hfailed hf
      have hfirst := hremove [] name List.mem_cons_self m.tree hnil (hdone ▸ hf)
      rw [← ht] at hfirst
      obtain ⟨removed, hinitial, hcache, htree, hend⟩ :=
        ih (c := { c with entries := c.entries.erase name }) (P := fun removed => P (name :: removed))
          _ hfirst fun removed other ho => hremove (name :: removed) other (List.mem_cons_of_mem _ ho)
      refine ⟨name :: removed, List.cons_prefix_cons.mpr ⟨rfl, hinitial⟩, ?_⟩
      rw [hr, if_neg hf]
      exact ⟨hcache, htree, hend.imp_left (And.imp_right (congrArg (name :: ·)))⟩

theorem run_flush_of_error {c : OutputCache} {m : Machine} {e : Fault}
    (h : ((c.removeFiles c.stale : StateM Machine _).run m).1.2 = .error e) :
    let removed := (c.removeFiles c.stale : StateM Machine _).run m
    (c.flush : StateM Machine _).run m = ((removed.1.1, .error e), removed.2) := by
  have hpair : ((c.removeFiles c.stale : StateM Machine _).run m).1 = (_, .error e) :=
    Prod.ext rfl h
  intro removed
  rw [flush, Machine.run_bind, hpair]
  rfl

theorem run_flush_of_ok {c : OutputCache} {m : Machine}
    (h : ((c.removeFiles c.stale : StateM Machine _).run m).1.2 = .ok ()) :
    let removed := (c.removeFiles c.stale : StateM Machine _).run m
    let manifest := Manifest.write removed.1.1.entries
    let saved := (FileStore.writeText removed.1.1.manifestPath manifest : StateM Machine Bool).run
      removed.2
    (c.flush : StateM Machine _).run m =
      if saved.1 then ((removed.1.1, .ok c.stale.length), saved.2)
      else ((removed.1.1, .error (.io removed.1.1.manifestPath)), saved.2) := by
  have hpair : ((c.removeFiles c.stale : StateM Machine _).run m).1 = (_, .ok ()) :=
    Prod.ext rfl h
  intro removed manifest saved
  rw [flush, Machine.run_bind, hpair]
  show StateT.run (if saved.1 then _ else _) saved.2 = _
  by_cases hsaved : saved.1 = true
  · rw [if_pos hsaved, if_pos hsaved]
    rfl
  · rw [if_neg hsaved, if_neg hsaved]
    rfl

/-- A flush stops between two removals, or before the manifest is written, or at its end. -/
theorem run_flush_induction {P : List String → FileTree → Prop} (c : OutputCache) (m : Machine)
    (hnil : P [] m.tree)
    (hremove : ∀ removed, ∀ name ∈ c.stale, ∀ t, P removed t →
      (t.remove (c.path name)).1 ≠ .failed → P (removed ++ [name]) (t.remove (c.path name)).2) :
    let r := (c.flush : StateM Machine _).run m
    ∃ removed t, removed <+: c.stale ∧ P removed t ∧
      r.1.1 = { c with entries := c.entries.eraseAll removed } ∧
      (r.1.2 = .ok c.stale.length ∧ removed = c.stale ∧
          t.write? c.manifestPath (some (Manifest.write (c.entries.eraseAll removed))) =
            some r.2.tree ∨
        (∃ e, r.1.2 = .error e) ∧ r.2.tree = t) := by
  obtain ⟨removed, hinitial, hcache, htree, hend⟩ := run_removeFiles_induction c.stale m hnil hremove
  refine ⟨removed, _, hinitial, htree, ?_⟩
  rcases hend with ⟨hok, rfl⟩ | ⟨e, he⟩
  · rw [run_flush_of_ok hok]
    simp only [hcache]
    rcases Machine.run_writeText ((c.removeFiles c.stale : StateM Machine _).run m).2
      { c with entries := c.entries.eraseAll c.stale }.manifestPath
      (Manifest.write (c.entries.eraseAll c.stale)) with ⟨hw, ht⟩ | ⟨hw, ht⟩
    · rw [if_neg fun hs => Bool.false_ne_true (hw.symm.trans hs)]
      exact ⟨rfl, .inr ⟨⟨_, rfl⟩, ht⟩⟩
    · rw [if_pos hw]
      exact ⟨rfl, .inl ⟨rfl, trivial, ht⟩⟩
  · rw [run_flush_of_error he]
    exact ⟨hcache, .inr ⟨⟨e, rfl⟩, rfl⟩⟩

theorem hasDirectory_remove (hnames : ∀ name ∈ c.entries.map (·.1), IsPlainName name)
    (removed : List String) {name : String} (hname : name ∈ c.stale) {t : FileTree}
    (ht : t.HasDirectory c.directory (Table.eraseAll entries removed))
    (hdone : (t.remove (c.path name)).1 ≠ .failed) :
    (t.remove (c.path name)).2.HasDirectory c.directory
      (Table.eraseAll entries (removed ++ [name])) := by
  rw [Table.eraseAll_append_singleton]
  rcases ht.remove (hnames name (mem_stale_iff.mp hname).1) with ⟨hfailed, -⟩ | ⟨-, hafter, -⟩
  · exact absurd hfailed hdone
  · exact hafter

/-- Some of the files that were not asked for are removed. The manifest is written at the end,
unless a file cannot be removed or the manifest cannot be written. -/
theorem run_flush (c : OutputCache) (m : Machine) (h : m.tree.HasDirectory c.directory entries)
    (hnames : ∀ name ∈ c.entries.map (·.1), IsPlainName name) :
    let r := (c.flush : StateM Machine _).run m
    ∃ removed, (∀ name ∈ removed, name ∈ c.entries.map (·.1)) ∧
      r.1.1 = { c with entries := c.entries.eraseAll removed } ∧
      ((∃ n, r.1.2 = .ok n) ∧ r.2.tree.HasDirectory c.directory
          (Table.insert manifestName (.file (some (Manifest.write (c.entries.eraseAll removed))))
            (Table.eraseAll entries removed)) ∨
        (∃ e, r.1.2 = .error e) ∧
          r.2.tree.HasDirectory c.directory (Table.eraseAll entries removed)) := by
  obtain ⟨removed, t, hinitial, ht, hcache, hend⟩ := run_flush_induction c m h
    fun removed _ hname _ => hasDirectory_remove hnames removed hname
  refine ⟨removed, fun name hname => (mem_stale_iff.mp (hinitial.subset hname)).1, hcache, ?_⟩
  rcases hend with ⟨hok, -, hwrite⟩ | ⟨herror, htree⟩
  · exact .inl ⟨⟨_, hok⟩, (ht.write? isPlainName_manifestName hwrite).1⟩
  · exact .inr ⟨herror, htree ▸ ht⟩

/-- When all goes well every stale file is removed, and the manifest tells the rest. -/
theorem run_flush_ok {n : Nat} (h : m.tree.HasDirectory c.directory entries)
    (hnames : ∀ name ∈ c.entries.map (·.1), IsPlainName name)
    (hok : ((c.flush : StateM Machine _).run m).1.2 = .ok n) :
    let manifest := Manifest.write (c.entries.eraseAll c.stale)
    let t := ((c.flush : StateM Machine _).run m).2.tree
    n = c.stale.length ∧ canHold c.directory manifestName = true ∧
      t.HasDirectory c.directory
        (Table.insert manifestName (.file (some manifest)) (Table.eraseAll entries c.stale)) ∧
      t.write? c.manifestPath (some manifest) = some t := by
  obtain ⟨removed, t, -, ht, -, ⟨hlength, rfl, hwrite⟩ | ⟨⟨e, he⟩, -⟩⟩ := run_flush_induction c m h
    fun removed _ hname _ => hasDirectory_remove hnames removed hname
  · obtain ⟨hdirectory, hhold, -⟩ := ht.write? isPlainName_manifestName hwrite
    exact ⟨Except.ok.inj (hok.symm.trans hlength), hhold, hdirectory,
      ht.write?_write? isPlainName_manifestName hwrite⟩
  · rw [he] at hok
    contradiction

/-- What the manifest of a directory lists. One that is not there or does not decode lists
nothing. -/
def listed (directory : String) (t : FileTree) : Table String :=
  ((t.textAt? (joinPath directory manifestName)).bind Manifest.parse?).getD []

/-- When the manifest can be read, the cache knows what it lists. -/
theorem run_openAt_ok {directory : String} {m' : Machine} (hread : m.faults[1]? ≠ some true)
    (hok : (openAt directory : StateM Machine _).run m = (.ok c, m')) :
    m.tree.makeDirectories directory = (true, m'.tree) ∧
      c = { directory, entries := listed directory m'.tree, emitted := [] } := by
  rw [openAt, Machine.run_bind] at hok
  rcases m.run_makeDirectories directory with ⟨hfailed, -⟩ | hdone
  · rw [hfailed] at hok
    cases hok
  rcases hmake : m.tree.makeDirectories directory with ⟨made, t⟩
  rw [hmake] at hdone
  obtain ⟨hmade, ht⟩ := Prod.mk.inj hdone
  cases made with
  | false =>
    rw [hmade] at hok
    cases hok
  | true =>
    have hfaults : ((FileStore.makeDirectories directory : StateM Machine Bool).run m).2.faults =
        m.faults.tail := Machine.faults_attempt ..
    rw [hmade, if_pos rfl, Machine.run_bind, Machine.run_readText?_of_ne
      (by rwa [hfaults, List.head?_tail]), ht] at hok
    obtain ⟨hc, rfl⟩ := Prod.mk.inj hok
    exact ⟨rfl, (Except.ok.inj hc).symm⟩

theorem run_openAt (directory : String) (m : Machine) (t : FileTree)
    (hmade : m.tree.makeDirectories directory = (true, t)) :
    let r := (openAt directory : StateM Machine _).run m
    (∃ e, r.1 = .error e) ∧ r.2.tree = m.tree ∨
      r.2.tree = t ∧ ∃ c, r.1 = .ok c ∧ c.directory = directory ∧ (c.entries = [] ∨
        ∃ text, t.textAt? (joinPath directory manifestName) = some text ∧
          Manifest.parse? text = some c.entries) := by
  rcases Machine.run_makeDirectories m directory with ⟨hfailed, ht⟩ | hdone
  · refine .inl ?_
    rw [openAt, Machine.run_bind, hfailed]
    exact ⟨⟨_, rfl⟩, ht⟩
  · rw [hmade] at hdone
    obtain ⟨hr, ht⟩ := Prod.mk.inj hdone
    obtain ⟨hsame, htext⟩ := Machine.run_readText?
      ((FileStore.makeDirectories directory : StateM Machine Bool).run m).2
      (joinPath directory manifestName)
    refine .inr ?_
    rw [openAt, Machine.run_bind, hr, if_pos rfl, Machine.run_bind]
    refine ⟨hsame.trans ht, _, rfl, rfl, ?_⟩
    rw [ht] at htext
    rcases htext with hnone | hsome
    · simp only [hnone]
      exact .inl rfl
    · simp only [hsome]
      cases htext : t.textAt? (joinPath directory manifestName) with
      | none => exact .inl rfl
      | some text =>
        cases hparse : Manifest.parse? text with
        | none => exact .inl (by simp [hparse])
        | some table => exact .inr ⟨text, rfl, by simp [hparse]⟩

end OutputCache

end Bindable
