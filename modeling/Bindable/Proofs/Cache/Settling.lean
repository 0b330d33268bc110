import Bindable.Proofs.Cache.CachedRun
import Bindable.Proofs.Files.Destination

/-! What a run of the output cache does when nothing fails, whatever the names of its files. The digest
of every file is noted, whether it is written or passed over. -/

namespace Bindable

open FileTree

theorem Table.insert_eq_self {α : Type} {t : Table α} {key : String} {value : α} (h : t.Sorted)
    (hget : t.get? key = some value) : t.insert key value = t := by
  refine (h.insert key value).ext h fun name => ?_
  rw [Table.get?_insert]
  by_cases he : key = name
  · rw [if_pos he, ← he, hget]
  · rw [if_neg he]

theorem FileTree.HasDirectory.kind?_nil {t : FileTree} {path : String}
    {entries : List (String × FileTree)} (h : t.HasDirectory path entries) :
    t.kind? [] = some .directory := by
  obtain ⟨R, hR⟩ := h
  obtain ⟨around, rfl⟩ := exists_directory_of_node? (node?_of_locateFrom hR)
  rfl

namespace OutputCache

variable {c c' : OutputCache} {f : SourceFile} {files : List SourceFile} {t t' : FileTree}
  {m' : Machine} {directory : String} {names : List String} {b : Bool} {ws : List Bool} {n : Nat}

section Recorded

theorem directory_foldl_recorded (c : OutputCache) (files : List SourceFile) :
    (files.foldl recorded c).directory = c.directory := by
  induction files generalizing c with
  | nil => rfl
  | cons f files ih => exact ih (c.recorded f)

theorem mem_emitted_foldl_recorded (c : OutputCache) (files : List SourceFile) (name : String) :
    name ∈ (files.foldl recorded c).emitted ↔
      name ∈ files.map (·.hintName) ∨ name ∈ c.emitted := by
  induction files generalizing c with
  | nil => simp
  | cons f files ih =>
    rw [List.foldl_cons, ih, recorded, noting, List.map_cons, List.mem_cons, List.mem_cons]
    tauto

theorem sorted_foldl_recorded (h : c.entries.Sorted) (files : List SourceFile) :
    (files.foldl recorded c).entries.Sorted := by
  induction files generalizing c with
  | nil => exact h
  | cons f files ih => exact ih (c := c.recorded f) (h.insert _ _)

theorem digestsOf_append_singleton (files : List SourceFile) (f : SourceFile) :
    digestsOf (files ++ [f]) = (digestsOf files).insert f.hintName f.hash := by
  rw [digestsOf, List.map_append, List.map_singleton, Table.ofList_append_singleton]
  rfl

/-- The digest under a name is that of one of its files. -/
theorem exists_get?_digestsOf {name : String} (h : name ∈ files.map (·.hintName)) :
    ∃ f ∈ files, f.hintName = name ∧ (digestsOf files).get? name = some f.hash := by
  induction files using List.reverseRecOn with
  | nil => contradiction
  | append_singleton files f ih =>
    rw [digestsOf_append_singleton, Table.get?_insert]
    by_cases he : f.hintName = name
    · exact ⟨f, by simp, he, if_pos he⟩
    · obtain ⟨g, hg, hname, hget⟩ := ih (by simpa [Ne.symm he] using h)
      exact ⟨g, List.mem_append_left _ hg, hname, (if_neg he).trans hget⟩

theorem get?_foldl_recorded (c : OutputCache) (files : List SourceFile) (name : String) :
    (files.foldl recorded c).entries.get? name =
      if name ∈ files.map (·.hintName) then (digestsOf files).get? name
      else c.entries.get? name := by
  induction files using List.reverseRecOn with
  | nil => rfl
  | append_singleton files f ih =>
    rw [List.foldl_append, List.foldl_cons, List.foldl_nil, recorded, Table.get?_insert, ih,
      digestsOf_append_singleton, Table.get?_insert]
    by_cases he : f.hintName = name
    · simp [he]
    · simp [he, Ne.symm he]

theorem mem_stale_foldl_recorded_iff {name : String} (hemitted : c.emitted = []) :
    name ∈ (files.foldl recorded c).stale ↔
      name ∈ c.entries.map (·.1) ∧ name ∉ files.map (·.hintName) := by
  rw [mem_stale_iff, mem_emitted_foldl_recorded, hemitted, ← Table.get?_isSome_iff,
    get?_foldl_recorded, ← Table.get?_isSome_iff]
  by_cases hname : name ∈ files.map (·.hintName) <;> simp [hname]

theorem stale_foldl_recorded_eq_nil (hemitted : c.emitted = [])
    (h : ∀ name ∈ c.entries.map (·.1), name ∈ files.map (·.hintName)) :
    (files.foldl recorded c).stale = [] := by
  refine List.eq_nil_iff_forall_not_mem.mpr fun name hname => ?_
  obtain ⟨hknown, hnew⟩ := (mem_stale_foldl_recorded_iff hemitted).mp hname
  exact hnew (h name hknown)

/-- Without its stale names the cache knows the last digest of every file. -/
theorem eraseAll_stale_foldl_recorded (h : c.entries.Sorted) (hemitted : c.emitted = [])
    (files : List SourceFile) :
    (files.foldl recorded c).entries.eraseAll (files.foldl recorded c).stale =
      digestsOf files := by
  refine ((sorted_foldl_recorded h files).eraseAll _).ext (sorted_digestsOf files) fun name => ?_
  rw [Table.get?_eraseAll, get?_foldl_recorded]
  by_cases hname : name ∈ files.map (·.hintName)
  · rw [if_neg fun hs => ((mem_stale_foldl_recorded_iff hemitted).mp hs).2 hname, if_pos hname]
  · rw [if_neg hname, get?_digestsOf_of_notMem hname]
    split
    next => rfl
    next hs =>
      rw [mem_stale_foldl_recorded_iff hemitted, ← Table.get?_isSome_iff] at hs
      simpa [hname] using hs

end Recorded

section Contents

/-- The digest that is known of a name and what is there, after a file has been asked for. -/
def settle (name : String) (s : Option String × Option Kind) (f : SourceFile) :
    Option String × Option Kind :=
  if f.hintName = name ∧ ¬ (s.1 = some f.hash ∧ s.2.isSome) then
    (some f.hash, some (.file (some f.text)))
  else s

variable {name : String} {s r : Option String × Option Kind}

theorem settle_of_ne (h : f.hintName ≠ name) (s : Option String × Option Kind) :
    settle name s f = s :=
  if_neg fun he => h he.1

theorem settle_of_fresh (h : s.1 = some f.hash ∧ s.2.isSome) : settle name s f = s :=
  if_neg fun he => he.2 h

theorem fresh_settle (h : f.hintName = name) (s : Option String × Option Kind) :
    (settle name s f).1 = some f.hash ∧ (settle name s f).2.isSome := by
  rw [settle]
  split
  next => exact ⟨rfl, rfl⟩
  next hs => exact by_contra fun hfresh => hs ⟨h, hfresh⟩

/-- From two states with one digest the files lead to one state, unless all are passed over. -/
theorem foldl_settle_eq_or (hdigest : s.1 = r.1) (hs : s.2.isSome) (hr : r.2.isSome)
    (files : List SourceFile) :
    files.foldl (settle name) s = files.foldl (settle name) r ∨
      files.foldl (settle name) s = s ∧ files.foldl (settle name) r = r := by
  induction files generalizing s r with
  | nil => exact .inr ⟨rfl, rfl⟩
  | cons f files ih =>
    simp only [List.foldl_cons]
    by_cases hname : f.hintName = name
    · by_cases hhash : s.1 = some f.hash
      · rw [settle_of_fresh ⟨hhash, hs⟩, settle_of_fresh ⟨hdigest ▸ hhash, hr⟩]
        exact ih hdigest hs hr
      · rw [settle, settle, if_pos ⟨hname, fun h => hhash h.1⟩,
          if_pos ⟨hname, fun h => hhash (hdigest.trans h.1)⟩]
        exact .inl rfl
    · rw [settle_of_ne hname, settle_of_ne hname]
      exact ih hdigest hs hr

/-- Asking for the same files once more changes nothing. -/
theorem foldl_settle_foldl_settle (name : String) (files : List SourceFile)
    (s : Option String × Option Kind) :
    files.foldl (settle name) (files.foldl (settle name) s) = files.foldl (settle name) s := by
  induction files generalizing s with
  | nil => rfl
  | cons f files ih =>
    simp only [List.foldl_cons]
    by_cases hname : f.hintName = name
    · -- after the first file of the name both rounds know its digest
      obtain ⟨hfirst, hthere⟩ := fresh_settle hname s
      obtain ⟨hagain, hthere'⟩ := fresh_settle hname (files.foldl (settle name) (settle name s f))
      rcases foldl_settle_eq_or (hfirst.trans hagain.symm) hthere hthere' files with he | ⟨he, he'⟩
      · exact he.symm
      · rw [he', he]
        exact settle_of_fresh ⟨hfirst, hthere⟩
    · rw [settle_of_ne hname, settle_of_ne hname]
      exact ih s

end Contents

section Writes

/-- What a write does that succeeds: the file is left alone if it is fresh, and there afterwards in
any case. -/
structure Puts (c : OutputCache) (f : SourceFile) (names : List String) (t : FileTree) (b : Bool)
    (t' : FileTree) : Prop where
  leads : t.LeadsTo (c.path f.hintName) names
  eq_false_iff : b = false ↔ c.entries.get? f.hintName = some f.hash ∧ (t.kind? names).isSome
  unchanged : b = false → t' = t
  changed : b = true → ∀ other,
    t'.kind? other = if other = names then some (.file (some f.text)) else t.kind? other

theorem recorded_eq_noting (h : c.entries.Sorted)
    (hhash : c.entries.get? f.hintName = some f.hash) : c.recorded f = c.noting f := by
  rw [recorded, Table.insert_eq_self h hhash]
  rfl

/-- A path that leads somewhere can be written to. -/
theorem exists_run_write (hsorted : c.entries.Sorted) (hroot : t.kind? [] = some .directory)
    (hleads : t.LeadsTo (c.path f.hintName) names) :
    ∃ b t', (c.write f : StateM Machine _).run ⟨t, []⟩ = ((c.recorded f, .ok b), ⟨t', []⟩) ∧
      c.Puts f names t b t' := by
  have hfile := hleads.fileAt_eq hroot
  by_cases hfresh : c.entries.get? f.hintName = some f.hash ∧ t.fileAt (c.path f.hintName) = true
  · refine ⟨false, t, ?_, hleads, by simp [← hfile, hfresh], fun _ => rfl, by simp⟩
    rw [run_write_eq_ite, if_pos hfresh, recorded_eq_noting hsorted hfresh.1]
  · refine ⟨true, t.put names (file (some f.text)), ?_, hleads, by simpa [← hfile] using hfresh,
      by simp, fun _ => hleads.kind?_put hroot _⟩
    rw [run_write_eq_ite, if_neg hfresh, hleads.write?_eq]

theorem run_write_ok (hsorted : c.entries.Sorted) (hroot : t.kind? [] = some .directory)
    (hrun : (c.write f : StateM Machine _).run ⟨t, []⟩ = ((c', .ok b), m')) :
    ∃ names t', c' = c.recorded f ∧ m' = ⟨t', []⟩ ∧ c.Puts f names t b t' := by
  have hleads : ∃ names, t.LeadsTo (c.path f.hintName) names := by
    by_cases hfile : t.fileAt (c.path f.hintName) = true
    · exact exists_leadsTo_of_fileAt hfile
    rw [run_write_eq_ite, if_neg fun hf => hfile hf.2] at hrun
    cases hw : t.write? (c.path f.hintName) (some f.text) with
    | none =>
      rw [hw] at hrun
      cases hrun
    | some u =>
      obtain ⟨names, hleads, -⟩ := exists_leadsTo_of_write? hw
      exact ⟨names, hleads⟩
  obtain ⟨names, hleads⟩ := hleads
  obtain ⟨b', t', hrun', hputs⟩ := exists_run_write hsorted hroot hleads
  rw [hrun'] at hrun
  cases hrun
  exact ⟨names, t', rfl, rfl, hputs⟩

theorem Puts.kind?_names (h : c.Puts f names t b t') : (t'.kind? names).isSome := by
  cases b with
  | false =>
    rw [h.unchanged rfl]
    exact (h.eq_false_iff.mp rfl).2
  | true =>
    rw [h.changed rfl, if_pos rfl]
    rfl

theorem Puts.sameDirectories (h : c.Puts f names t b t') (hroot : t.kind? [] = some .directory) :
    SameDirectories t t' := by
  cases b with
  | false => exact h.unchanged rfl ▸ .refl t
  | true =>
    exact sameDirectories_of_kind?_eq (h.leads.kind?_ne_directory hroot) (by simp) (h.changed rfl)

theorem Puts.kept (h : c.Puts f names t b t') {others : List String}
    (hothers : ¬ t.LeadsTo (c.path f.hintName) others) : t'.kind? others = t.kind? others := by
  cases b with
  | false => rw [h.unchanged rfl]
  | true =>
    rw [h.changed rfl, if_neg]
    rintro rfl
    exact hothers h.leads

/-- A file that is there stays there. -/
theorem Puts.fileAt_of_fileAt (h : c.Puts f names t b t') (hroot : t.kind? [] = some .directory)
    {path : String} (hfile : t.fileAt path = true) : t'.fileAt path = true := by
  obtain ⟨other, hother⟩ := exists_leadsTo_of_fileAt hfile
  have hsame := h.sameDirectories hroot
  rw [hother.fileAt_eq hroot] at hfile
  rw [(hother.of_sameDirectories hroot hsame).fileAt_eq ((hsame []).mp hroot)]
  cases b with
  | false => rwa [h.unchanged rfl]
  | true =>
    rw [h.changed rfl]
    split
    next => rfl
    next => exact hfile

theorem Puts.fileAt (h : c.Puts f names t b t') (hroot : t.kind? [] = some .directory) :
    t'.fileAt (c.path f.hintName) = true := by
  have hsame := h.sameDirectories hroot
  rw [(h.leads.of_sameDirectories hroot hsame).fileAt_eq ((hsame []).mp hroot)]
  exact h.kind?_names

theorem Puts.settle_eq (h : c.Puts f names t b t') {R : List String}
    (hnames : names = R ++ [f.hintName]) (name : String) :
    ((c.recorded f).entries.get? name, t'.kind? (R ++ [name])) =
      settle name (c.entries.get? name, t.kind? (R ++ [name])) f := by
  subst hnames
  by_cases he : f.hintName = name
  · subst he
    cases b with
    | false =>
      obtain ⟨hhash, hfile⟩ := h.eq_false_iff.mp rfl
      rw [settle_of_fresh ⟨hhash, hfile⟩, h.unchanged rfl, recorded, Table.get?_insert, if_pos rfl,
        hhash]
    | true =>
      rw [settle, if_pos ⟨rfl, fun hfresh => by simpa using h.eq_false_iff.mpr hfresh⟩,
        h.changed rfl, if_pos rfl, recorded, Table.get?_insert, if_pos rfl]
  · have hother : ¬ t.LeadsTo (c.path f.hintName) (R ++ [name]) := by
      intro hleads
      have hlast := List.append_cancel_left (h.leads.unique hleads)
      exact he (List.singleton_inj.mp hlast)
    rw [settle_of_ne he, h.kept hother, recorded, Table.get?_insert, if_neg he]

/-- What writing files one by one does when every write succeeds. -/
structure PutsAll (c : OutputCache) (files : List SourceFile) (t : FileTree) (ws : List Bool)
    (t' : FileTree) : Prop where
  same : SameDirectories t t'
  leads : ∀ f ∈ files, ∃ names, t.LeadsTo (c.path f.hintName) names
  fileAt : ∀ f ∈ files, t'.fileAt (c.path f.hintName) = true
  fileAt_of_fileAt : ∀ path, t.fileAt path = true → t'.fileAt path = true
  kept : ∀ names, (∀ f ∈ files, ¬ t.LeadsTo (c.path f.hintName) names) →
    t'.kind? names = t.kind? names
  settled : ∀ R, (∀ f ∈ files, t.LeadsTo (c.path f.hintName) (R ++ [f.hintName])) → ∀ name,
    ((files.foldl recorded c).entries.get? name, t'.kind? (R ++ [name])) =
      files.foldl (settle name) (c.entries.get? name, t.kind? (R ++ [name]))
  known : (∀ w ∈ ws, w = false) → ∀ f ∈ files, c.entries.get? f.hintName = some f.hash ∧
    t.fileAt (c.path f.hintName) = true

theorem PutsAll.nil (c : OutputCache) (t : FileTree) : c.PutsAll [] t [] t where
  same := .refl t
  leads := by simp
  fileAt := by simp
  fileAt_of_fileAt _ hfile := hfile
  kept _ _ := rfl
  settled _ _ _ := rfl
  known := by simp

/-- What the first write does stays through the others. -/
theorem PutsAll.cons {t₁ : FileTree} (hsorted : c.entries.Sorted)
    (hroot : t.kind? [] = some .directory) (hputs : c.Puts f names t b t₁)
    (hall : (c.recorded f).PutsAll files t₁ ws t') : c.PutsAll (f :: files) t (b :: ws) t' := by
  have hsame := hputs.sameDirectories hroot
  have hroot₁ := (hsame []).mp hroot
  constructor
  case same => exact hsame.trans hall.same
  case leads =>
    refine List.forall_mem_cons.mpr ⟨⟨names, hputs.leads⟩, fun g hg => ?_⟩
    obtain ⟨others, hothers⟩ := hall.leads g hg
    exact ⟨others, hothers.of_sameDirectories hroot₁ hsame.symm⟩
  case fileAt =>
    exact List.forall_mem_cons.mpr ⟨hall.fileAt_of_fileAt _ (hputs.fileAt hroot), hall.fileAt⟩
  case fileAt_of_fileAt =>
    exact fun path hfile => hall.fileAt_of_fileAt path (hputs.fileAt_of_fileAt hroot hfile)
  case kept =>
    intro others hothers
    obtain ⟨hf, hrest⟩ := List.forall_mem_cons.mp hothers
    rw [hall.kept others fun g hg hleads =>
      hrest g hg (hleads.of_sameDirectories hroot₁ hsame.symm), hputs.kept hf]
  case settled =>
    intro R hR name
    obtain ⟨hf, hrest⟩ := List.forall_mem_cons.mp hR
    simp only [List.foldl_cons]
    rw [hall.settled R (fun g hg => (hrest g hg).of_sameDirectories hroot hsame) name,
      hputs.settle_eq (hputs.leads.unique hf)]
  case known =>
    intro hws
    obtain ⟨rfl, hrest⟩ := List.forall_mem_cons.mp hws
    obtain ⟨hhash, hfile⟩ := hputs.eq_false_iff.mp rfl
    obtain rfl := hputs.unchanged rfl
    -- a file that is fresh leaves the digests as they are
    have hknown := hall.known hrest
    rw [recorded_eq_noting hsorted hhash] at hknown
    exact List.forall_mem_cons.mpr ⟨⟨hhash, (hputs.leads.fileAt_eq hroot).trans hfile⟩, hknown⟩

theorem run_writeAll_ok (hsorted : c.entries.Sorted) (hroot : t.kind? [] = some .directory)
    (hrun : (c.writeAll files : StateM Machine _).run ⟨t, []⟩ = ((c', .ok ws), m')) :
    ∃ t', c' = files.foldl recorded c ∧ m' = ⟨t', []⟩ ∧ c.PutsAll files t ws t' := by
  induction files generalizing c t ws with
  | nil =>
    cases hrun
    exact ⟨t, rfl, rfl, .nil _ t⟩
  | cons f files ih =>
    obtain ⟨c₁, m₁, b, bs, rfl, hfirst, hrest⟩ := run_writeAll_cons.mp hrun
    obtain ⟨names, t₁, rfl, rfl, hputs⟩ := run_write_ok hsorted hroot hfirst
    have hroot₁ := (hputs.sameDirectories hroot []).mp hroot
    obtain ⟨t', rfl, rfl, hall⟩ := ih (c := c.recorded f) (hsorted.insert _ _) hroot₁ hrest
    exact ⟨t', rfl, rfl, hall.cons hsorted hroot hputs⟩

theorem exists_run_writeAll (hsorted : c.entries.Sorted) (hroot : t.kind? [] = some .directory)
    (hleads : ∀ f ∈ files, ∃ names, t.LeadsTo (c.path f.hintName) names) :
    ∃ c' ws m', (c.writeAll files : StateM Machine _).run ⟨t, []⟩ = ((c', .ok ws), m') := by
  induction files generalizing c t with
  | nil => exact ⟨c, [], ⟨t, []⟩, rfl⟩
  | cons f files ih =>
    obtain ⟨names, hfirst⟩ := hleads f List.mem_cons_self
    obtain ⟨b, t₁, hrun, hputs⟩ := exists_run_write hsorted hroot hfirst
    have hsame := hputs.sameDirectories hroot
    obtain ⟨c', ws, m', hrest⟩ := ih (c := c.recorded f) (hsorted.insert _ _) ((hsame []).mp hroot)
      fun g hg => by
        obtain ⟨others, hg⟩ := hleads g (List.mem_cons_of_mem _ hg)
        exact ⟨others, hg.of_sameDirectories hroot hsame⟩
    exact ⟨c', b :: ws, m', run_writeAll_cons.mpr ⟨_, _, b, ws, rfl, hrun, hrest⟩⟩

end Writes

section Flush

/-- Removing files takes away only what is at the destinations of their paths. -/
theorem run_removeFiles_ok {stale : List String} (hroot : t.kind? [] = some .directory)
    (hrun : (c.removeFiles stale : StateM Machine _).run ⟨t, []⟩ = ((c', .ok ()), m')) :
    ∃ t', c' = { c with entries := c.entries.eraseAll stale } ∧ m' = ⟨t', []⟩ ∧
      SameDirectories t t' ∧ ∀ names, (∀ name ∈ stale, ¬ t.LeadsTo (c.path name) names) →
        t'.kind? names = t.kind? names := by
  induction stale generalizing c t with
  | nil =>
    cases hrun
    exact ⟨t, rfl, rfl, .refl t, fun _ _ => rfl⟩
  | cons name stale ih =>
    rw [run_removeFiles_cons, Machine.run_removeFile_eq] at hrun
    split at hrun
    · cases hrun
    have hstep := sameDirectories_remove hroot (c.path name)
    obtain ⟨t', rfl, rfl, hsame, hkept⟩ :=
      ih (c := { c with entries := c.entries.erase name }) ((hstep []).mp hroot) hrun
    refine ⟨t', rfl, rfl, hstep.trans hsame, fun names hnames => ?_⟩
    obtain ⟨hfirst, hrest⟩ := List.forall_mem_cons.mp hnames
    rw [hkept names fun other ho hleads => hrest other ho
      ((leadsTo_iff_of_sameDirectories hroot hstep).mpr hleads),
      kind?_remove_of_not_leadsTo hroot hfirst]

/-- A flush that succeeds removes what is stale and writes the manifest, which is then read back
and can be written again without effect. -/
theorem run_flush_rest {entries : List (String × FileTree)}
    (hhas : t.HasDirectory c.directory entries) (hsorted : c.entries.Sorted)
    (hrun : (c.flush : StateM Machine _).run ⟨t, []⟩ = ((c', .ok n), m')) :
    ∃ t', m' = ⟨t', []⟩ ∧ n = c.stale.length ∧ SameDirectories t t' ∧
      listed c.directory t' = c.entries.eraseAll c.stale ∧
      t'.write? c.manifestPath (some (Manifest.write (c.entries.eraseAll c.stale))) = some t' ∧
      (∃ names, t.LeadsTo c.manifestPath names) ∧
      ∀ names, (∀ name ∈ c.stale, ¬ t.LeadsTo (c.path name) names) →
        ¬ t.LeadsTo c.manifestPath names → t'.kind? names = t.kind? names := by
  have hroot := hhas.kind?_nil
  rcases hremoved : (c.removeFiles c.stale : StateM Machine _).run ⟨t, []⟩ with ⟨⟨c₁, e | u⟩, m₁⟩
  · rw [run_flush_of_error (by rw [hremoved])] at hrun
    cases hrun
  obtain ⟨t₁, rfl, rfl, hsame, hkept⟩ := run_removeFiles_ok hroot hremoved
  rw [run_flush_of_ok (by rw [hremoved])] at hrun
  simp only [hremoved, Machine.run_writeText_eq] at hrun
  have hmanifest : { c with entries := c.entries.eraseAll c.stale }.manifestPath =
      c.manifestPath := rfl
  rw [hmanifest] at hrun
  cases hw : t₁.write? c.manifestPath (some (Manifest.write (c.entries.eraseAll c.stale))) with
  | none =>
    rw [hw] at hrun
    cases hrun
  | some t' =>
    rw [hw] at hrun
    cases hrun
    have hroot₁ := (hsame []).mp hroot
    obtain ⟨manifest, hleads, ht'⟩ := exists_leadsTo_of_write? hw
    have hwritten : SameDirectories t₁ t' := ht' ▸ hleads.sameDirectories_put hroot₁ _
    have htext : t'.textAt? c.manifestPath = some (Manifest.write (c.entries.eraseAll c.stale)) :=
      ht' ▸ hleads.textAt?_put hroot₁ _
    have hleads₀ := hleads.of_sameDirectories hroot₁ hsame.symm
    obtain ⟨entries₁, hhas₁⟩ := hsame.hasDirectory hhas
    refine ⟨t', rfl, rfl, hsame.trans hwritten, ?_,
      hhas₁.write?_write? isPlainName_manifestName hw, ⟨manifest, hleads₀⟩,
      fun names hstale hnames => ?_⟩
    · show ((t'.textAt? c.manifestPath).bind Manifest.parse?).getD [] = _
      rw [htext, Option.bind_some, Manifest.parse?_write (hsorted.eraseAll _), Option.getD_some]
    · rw [ht', hleads.kind?_put hroot₁, if_neg, hkept names hstale]
      rintro rfl
      exact hnames hleads₀

end Flush

end OutputCache

end Bindable
