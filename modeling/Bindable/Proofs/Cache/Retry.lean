import Bindable.Proofs.Cache.Settling

/-! A flush that fails can be repeated. What it has removed by then the next one need not remove, and
the rest is still known to be stale, so that in the end all is as if nothing had been in the way. -/

namespace Bindable.OutputCache

open FileTree

variable {c c₁ : OutputCache} {m : Machine} {t u : FileTree} {removed : List String}
  {name : String}

section Stale

/-- The cache after files were removed. -/
def without (c : OutputCache) (removed : List String) : OutputCache :=
  { c with entries := c.entries.eraseAll removed }

theorem mem_stale_without_iff :
    name ∈ (c.without removed).stale ↔ name ∈ c.stale ∧ name ∉ removed := by
  have hentry : name ∈ (c.entries.eraseAll removed).map (·.1) ↔
      name ∈ c.entries.map (·.1) ∧ name ∉ removed := by
    rw [← Table.get?_isSome_iff, Table.get?_eraseAll, ← Table.get?_isSome_iff]
    by_cases h : name ∈ removed <;> simp [h]
  rw [mem_stale_iff, mem_stale_iff, without, hentry]
  tauto

theorem stale_without_stale (c : OutputCache) : (c.without c.stale).stale = [] := by
  refine List.eq_nil_iff_forall_not_mem.mpr fun name hname => ?_
  obtain ⟨hstale, hno⟩ := mem_stale_without_iff.mp hname
  exact hno hstale

theorem eraseAll_stale_eq_filter (c : OutputCache) :
    c.entries.eraseAll c.stale = c.entries.filter fun p => p.1 ∈ c.emitted := by
  rw [Table.eraseAll_eq_filter]
  refine List.filter_congr fun p hp => ?_
  have hname : p.1 ∈ c.entries.map (·.1) := List.mem_map_of_mem hp
  simp [mem_stale_iff, hname]

/-- It is all the same whether stale names go at once or in two rounds. -/
theorem without_stale_without (h : ∀ name ∈ removed, name ∈ c.stale) :
    (c.without removed).without (c.without removed).stale = c.without c.stale := by
  have hentries : (c.without removed).entries.eraseAll (c.without removed).stale =
      c.entries.eraseAll c.stale := by
    -- what either way leaves are the entries of what was emitted
    rw [eraseAll_stale_eq_filter, eraseAll_stale_eq_filter, without, Table.eraseAll_eq_filter,
      List.filter_filter]
    refine List.filter_congr fun p _ => ?_
    have hemitted : p.1 ∈ c.emitted → p.1 ∉ removed :=
      fun hemitted hgone => (mem_stale_iff.mp (h p.1 hgone)).2 hemitted
    by_cases hp : p.1 ∈ c.emitted <;> simp [hp, hemitted]
  rw [without, hentries]
  rfl

end Stale

section Outcome

/-- What a flush leaves under a name if it succeeds. -/
def flushedNode? (c : OutputCache) (t : FileTree) (name : String) : Option FileTree :=
  if name = manifestName then
    some (.file (some (Manifest.write (c.entries.eraseAll c.stale))))
  else if name ∈ c.stale then none
  else t.nodeAt? (c.path name)

/-- Of the names in the directory no other changes than the manifest and those that are stale. -/
theorem run_flush_nodeAt? (hnames : ∀ name ∈ c.entries.map (·.1), IsPlainName name) (m : Machine) :
    let r := (c.flush : StateM Machine _).run m
    ∃ removed, removed <+: c.stale ∧ r.1.1 = c.without removed ∧
      (r.1.2 = .ok c.stale.length ∧ (∀ name, IsPlainName name →
          r.2.tree.nodeAt? (c.path name) = c.flushedNode? m.tree name) ∨
        (∃ e, r.1.2 = .error e) ∧ ∀ name, IsPlainName name →
          r.2.tree.nodeAt? (c.path name) =
            if name ∈ removed then none else m.tree.nodeAt? (c.path name)) := by
  -- kept up by the removals: the names that are gone by then are all that differs
  have hremove : ∀ removed, ∀ gone ∈ c.stale, ∀ t : FileTree,
      (∀ name, IsPlainName name → t.nodeAt? (c.path name) =
        if name ∈ removed then none else m.tree.nodeAt? (c.path name)) →
      (t.remove (c.path gone)).1 ≠ .failed →
      ∀ name, IsPlainName name → (t.remove (c.path gone)).2.nodeAt? (c.path name) =
        if name ∈ removed ++ [gone] then none else m.tree.nodeAt? (c.path name) := by
    intro removed gone hgone t ht hdone name hname
    have hstep : (t.remove (c.path gone)).2.nodeAt? (c.path name) =
        if name = gone then none else t.nodeAt? (c.path name) :=
      nodeAt?_remove (hnames gone (mem_stale_iff.mp hgone).1) hname hdone
    rw [hstep, ht name hname]
    by_cases he : name = gone <;> simp [he]
  obtain ⟨removed, t, hinitial, ht, hcache, hend⟩ :=
    run_flush_induction c m (fun _ _ => by simp) hremove
  refine ⟨removed, hinitial, hcache, ?_⟩
  rcases hend with ⟨hok, rfl, hwrite⟩ | ⟨herror, htree⟩
  · refine .inl ⟨hok, fun name hname => ?_⟩
    have hlast := nodeAt?_write? isPlainName_manifestName hname hwrite
    exact hlast.trans (congrArg _ (ht name hname))
  · exact .inr ⟨herror, htree ▸ ht⟩

theorem exists_run_removeFiles {names : List String} (hroot : t.kind? [] = some .directory)
    (hclear : ∀ name ∈ names, ∃ place, t.LeadsTo (c.path name) place) :
    ∃ u, (c.removeFiles names : StateM Machine _).run ⟨t, []⟩ =
      ((c.without names, .ok ()), ⟨u, []⟩) ∧ SameDirectories t u := by
  induction names generalizing c t with
  | nil => exact ⟨t, rfl, .refl t⟩
  | cons name names ih =>
    obtain ⟨place, hleads⟩ := hclear name List.mem_cons_self
    have hdone : (t.remove (c.path name)).1 ≠ .failed := by
      rw [FileTree.remove]
      rcases hleads with h | ⟨text, h⟩ <;> simp [h]
    -- the directories stay, so that the other paths lead where they did
    have hsame := sameDirectories_remove hroot (c.path name)
    obtain ⟨u, hrun, hrest⟩ := ih (c := { c with entries := c.entries.erase name })
      ((hsame []).mp hroot) fun other ho => by
        obtain ⟨place, hplace⟩ := hclear other (List.mem_cons_of_mem _ ho)
        exact ⟨place, hplace.of_sameDirectories hroot hsame⟩
    refine ⟨u, ?_, hsame.trans hrest⟩
    rw [run_removeFiles_cons, Machine.run_removeFile_eq, if_neg hdone]
    exact hrun

theorem exists_run_flush (hnames : ∀ name ∈ c.entries.map (·.1), IsPlainName name)
    (hclear : ∀ name ∈ manifestName :: c.stale, ∃ place, t.LeadsTo (c.path name) place) :
    ∃ u, (c.flush : StateM Machine _).run ⟨t, []⟩ =
        ((c.without c.stale, .ok c.stale.length), ⟨u, []⟩) ∧
      ∀ name, IsPlainName name → u.nodeAt? (c.path name) = c.flushedNode? t name := by
  obtain ⟨⟨place, hmanifest⟩, hstale⟩ := List.forall_mem_cons.mp hclear
  obtain ⟨entries, hhas⟩ := hmanifest.exists_hasDirectory isPlainName_manifestName
  obtain ⟨t', hremoved, hsame⟩ := exists_run_removeFiles hhas.kind?_nil hstale
  obtain ⟨u, hwrite⟩ : ∃ u, t'.write? (c.without c.stale).manifestPath
      (some (Manifest.write (c.without c.stale).entries)) = some u :=
    ⟨_, (hmanifest.of_sameDirectories hhas.kind?_nil hsame).write?_eq⟩
  have hrun : (c.flush : StateM Machine _).run ⟨t, []⟩ =
      ((c.without c.stale, .ok c.stale.length), ⟨u, []⟩) := by
    rw [run_flush_of_ok (by rw [hremoved]), hremoved]
    simp only [Machine.run_writeText_of_write? hwrite]
    rfl
  obtain ⟨-, -, -, ⟨-, hnodes⟩ | ⟨⟨e, he⟩, -⟩⟩ := run_flush_nodeAt? hnames ⟨t, []⟩
  · rw [hrun] at hnodes
    exact ⟨_, hrun, hnodes⟩
  · rw [hrun] at he
    cases he

theorem run_flush_again {c' : OutputCache} {n : Nat} {m' : Machine}
    (h : (c.flush : StateM Machine _).run m = ((c', .ok n), m')) :
    (c'.flush : StateM Machine _).run ⟨m'.tree, []⟩ = ((c', .ok 0), ⟨m'.tree, []⟩) := by
  obtain ⟨removed, t, -, -, hcache, hend⟩ := run_flush_induction (P := fun _ _ => True) c m trivial
    fun _ _ _ _ _ _ => trivial
  rw [h] at hcache hend
  rcases hend with ⟨-, rfl, hwrite⟩ | ⟨⟨e, he⟩, -⟩
  · obtain ⟨place, hleads, -⟩ := exists_leadsTo_of_write? hwrite
    obtain ⟨entries, hhas⟩ := hleads.exists_hasDirectory isPlainName_manifestName
    obtain rfl : c' = c.without c.stale := hcache
    exact run_flush_of_stale_eq_nil c.stale_without_stale
      (hhas.write?_write? isPlainName_manifestName hwrite)
  · cases he

end Outcome

/-- Of what a flush removes or writes nothing is in the way, and all else in the directory is as it
was. -/
structure Cleared (c : OutputCache) (before t : FileTree) : Prop where
  clear : ∀ name ∈ manifestName :: c.stale, ∃ place, t.LeadsTo (c.path name) place
  kept : ∀ name, IsPlainName name → name ∉ manifestName :: c.stale →
    t.nodeAt? (c.path name) = before.nodeAt? (c.path name)

theorem flushedNode?_of_cleared (h : c.Cleared t u) (hname : IsPlainName name) :
    c.flushedNode? u name = c.flushedNode? t name := by
  rw [flushedNode?, flushedNode?]
  by_cases hmanifest : name = manifestName
  · rw [if_pos hmanifest, if_pos hmanifest]
  rw [if_neg hmanifest, if_neg hmanifest]
  by_cases hstale : name ∈ c.stale
  · rw [if_pos hstale, if_pos hstale]
  · rw [if_neg hstale, if_neg hstale, h.kept name hname (by simp [hmanifest, hstale])]

theorem flushedNode?_without (hgone : ∀ name ∈ removed, name ∈ c.stale)
    (h : u.nodeAt? (c.path name) = if name ∈ removed then none else t.nodeAt? (c.path name)) :
    (c.without removed).flushedNode? u name = c.flushedNode? t name := by
  have hentries : (c.without removed).entries.eraseAll (c.without removed).stale =
      c.entries.eraseAll c.stale :=
    congrArg (·.entries) (without_stale_without hgone)
  have hpath : u.nodeAt? ((c.without removed).path name) =
      if name ∈ removed then none else t.nodeAt? (c.path name) := h
  rw [flushedNode?, flushedNode?, hentries, hpath]
  by_cases hremoved : name ∈ removed
  · simp [hremoved, hgone name hremoved]
  · simp [mem_stale_without_iff, hremoved]

/-- A flush that fails leaves the manifest and the files of this run alone. When nothing is in the way
any longer it succeeds, and the directory and the manifest are then as if it had succeeded at once. A
flush after one that succeeds changes nothing. -/
theorem flush_retried (c : OutputCache) (m : Machine)
    (hentries : ∀ name ∈ c.entries.map (·.1), IsUnitName name)
    (hemitted : ∀ name ∈ c.emitted, IsUnitName name) :
    (∀ c₁ e m₁, (c.flush : StateM Machine _).run m = ((c₁, .error e), m₁) →
      (∀ name ∈ manifestName :: c.emitted,
        m₁.tree.nodeAt? (c.path name) = m.tree.nodeAt? (c.path name)) ∧
      ∀ t t₁, c.Cleared m.tree t → c₁.Cleared m₁.tree t₁ →
        ∃ c' n n₁ u u₁,
          (c.flush : StateM Machine _).run ⟨t, []⟩ = ((c', .ok n), ⟨u, []⟩) ∧
          (c₁.flush : StateM Machine _).run ⟨t₁, []⟩ = ((c', .ok n₁), ⟨u₁, []⟩) ∧
          (∀ name, IsPlainName name → u₁.nodeAt? (c.path name) = u.nodeAt? (c.path name)) ∧
          u₁.textAt? c.manifestPath = some (Manifest.write c'.entries)) ∧
    ∀ c' n m', (c.flush : StateM Machine _).run m = ((c', .ok n), m') →
      (c'.flush : StateM Machine _).run ⟨m'.tree, []⟩ = ((c', .ok 0), ⟨m'.tree, []⟩) := by
  refine ⟨fun c₁ e m₁ hfailed => ?_, fun c' n m' hok => run_flush_again hok⟩
  have hplain : ∀ name ∈ c.entries.map (·.1), IsPlainName name :=
    fun name hname => (hentries name hname).toIsPlainName
  obtain ⟨removed, hinitial, hcache, hend⟩ := run_flush_nodeAt? hplain m
  rw [hfailed] at hcache hend
  obtain ⟨hok, -⟩ | ⟨-, hafter⟩ := hend
  · cases hok
  obtain rfl : c₁ = c.without removed := hcache
  have hgone : ∀ name ∈ removed, name ∈ c.stale := fun name hname => hinitial.subset hname
  refine ⟨?_, fun t t₁ ht ht₁ => ?_⟩
  · -- neither the manifest nor a file of this run is stale
    refine List.forall_mem_cons.mpr ⟨?_, fun name hname => ?_⟩
    · rw [hafter manifestName isPlainName_manifestName, if_neg]
      intro hmanifest
      exact (hentries _ (mem_stale_iff.mp (hgone _ hmanifest)).1).ne_manifest rfl
    · rw [hafter name (hemitted name hname).toIsPlainName, if_neg]
      exact fun hremoved => (mem_stale_iff.mp (hgone name hremoved)).2 hname
  · -- both flushes succeed, and what they leave is compared by way of the trees before them
    have hplain₁ : ∀ name ∈ (c.without removed).entries.map (·.1), IsPlainName name := by
      intro name hname
      rw [without, Table.eraseAll_eq_filter] at hname
      exact hplain name ((List.filter_sublist.map _).subset hname)
    obtain ⟨u, hrun, hnodes⟩ := exists_run_flush hplain ht.clear
    obtain ⟨u₁, hrun₁, hnodes₁⟩ := exists_run_flush hplain₁ ht₁.clear
    rw [without_stale_without hgone] at hrun₁
    have hsame : ∀ name, IsPlainName name →
        u₁.nodeAt? (c.path name) = u.nodeAt? (c.path name) := by
      intro name hname
      calc u₁.nodeAt? (c.path name) = (c.without removed).flushedNode? t₁ name := hnodes₁ name hname
        _ = (c.without removed).flushedNode? m₁.tree name := flushedNode?_of_cleared ht₁ hname
        _ = c.flushedNode? m.tree name := flushedNode?_without hgone (hafter name hname)
        _ = c.flushedNode? t name := (flushedNode?_of_cleared ht hname).symm
        _ = u.nodeAt? (c.path name) := (hnodes name hname).symm
    have hmanifest : u.nodeAt? c.manifestPath =
        some (.file (some (Manifest.write (c.without c.stale).entries))) :=
      (hnodes manifestName isPlainName_manifestName).trans (if_pos rfl)
    refine ⟨_, _, _, u, u₁, hrun, hrun₁, hsame, ?_⟩
    exact textAt?_of_nodeAt? ((hsame manifestName isPlainName_manifestName).trans hmanifest)

/-- An output directory with a manifest, a new file and others. -/
def outputWith (others : List (String × FileTree)) : FileTree :=
  .directory [("out", .directory
    ((manifestName, .file (some "{}")) :: ("New.g.cs", .file (some "new")) :: others))]

theorem hasDirectory_outputWith (others : List (String × FileTree)) :
    (outputWith others).HasDirectory "out"
      ((manifestName, .file (some "{}")) :: ("New.g.cs", .file (some "new")) :: others) :=
  ⟨["out"], rfl⟩

theorem nodeAt?_outputWith {others others' : List (String × FileTree)} (hname : IsPlainName name)
    (h : Table.get? others name = Table.get? others' name) :
    (outputWith others).nodeAt? (joinPath "out" name) =
      (outputWith others').nodeAt? (joinPath "out" name) := by
  rw [(hasDirectory_outputWith others).nodeAt?_eq hname,
    (hasDirectory_outputWith others').nodeAt?_eq hname]
  simp only [Table.get?_cons, h]

def threeUnits : OutputCache :=
  { directory := "out", entries := [("New.g.cs", "3"), ("Old.g.cs", "1"), ("Older.g.cs", "2")]
    emitted := ["New.g.cs"] }

theorem run_flush_threeUnits :
    (threeUnits.flush : StateM Machine _).run
        ⟨outputWith [("Old.g.cs", .file (some "old")), ("Older.g.cs", .directory [])], []⟩ =
      ((threeUnits.without ["Old.g.cs"], .error (.io "out/Older.g.cs")),
        ⟨outputWith [("Older.g.cs", .directory [])], []⟩) := by
  with_unfolding_all rfl

/-- A directory is in the way after one file was removed. It goes away, or a file takes its place. -/
theorem flush_retried_threeUnits :
    let t := outputWith [("Old.g.cs", .file (some "old"))]
    let t₁ := outputWith [("Older.g.cs", .file none)]
    ∃ c' n n₁ u u₁, (threeUnits.flush : StateM Machine _).run ⟨t, []⟩ = ((c', .ok n), ⟨u, []⟩) ∧
      ((threeUnits.without ["Old.g.cs"]).flush : StateM Machine _).run ⟨t₁, []⟩ =
        ((c', .ok n₁), ⟨u₁, []⟩) ∧
      (∀ name, IsPlainName name →
        u₁.nodeAt? (joinPath "out" name) = u.nodeAt? (joinPath "out" name)) ∧
      u₁.textAt? (joinPath "out" manifestName) = some (Manifest.write c'.entries) ∧
      (c'.flush : StateM Machine _).run ⟨u, []⟩ = ((c', .ok 0), ⟨u, []⟩) := by
  intro t t₁
  have hentries : ∀ name ∈ threeUnits.entries.map (·.1), IsUnitName name := by decide
  have hemitted : ∀ name ∈ threeUnits.emitted, IsUnitName name := by decide
  have hstale : threeUnits.stale = ["Old.g.cs", "Older.g.cs"] := by decide
  have hstale₁ : (threeUnits.without ["Old.g.cs"]).stale = ["Older.g.cs"] := by decide
  have hcleared : threeUnits.Cleared
      (outputWith [("Old.g.cs", .file (some "old")), ("Older.g.cs", .directory [])]) t := by
    constructor
    · simp only [hstale, List.forall_mem_cons]
      refine ⟨⟨["out", manifestName], .inr ⟨some "{}", ?_⟩⟩,
        ⟨["out", "Old.g.cs"], .inr ⟨some "old", ?_⟩⟩, ⟨["out", "Older.g.cs"], .inl ?_⟩, by simp⟩
      all_goals with_unfolding_all rfl
    · intro name hplain hname
      rw [hstale] at hname
      have holder : "Older.g.cs" ≠ name := by
        rintro rfl
        simp at hname
      refine nodeAt?_outputWith hplain ?_
      rw [Table.get?_cons, Table.get?_cons, Table.get?_cons, if_neg holder]
  have hcleared₁ : (threeUnits.without ["Old.g.cs"]).Cleared
      (outputWith [("Older.g.cs", .directory [])]) t₁ := by
    constructor
    · simp only [hstale₁, List.forall_mem_cons]
      refine ⟨⟨["out", manifestName], .inr ⟨some "{}", ?_⟩⟩,
        ⟨["out", "Older.g.cs"], .inr ⟨none, ?_⟩⟩, by simp⟩
      all_goals with_unfolding_all rfl
    · intro name hplain hname
      rw [hstale₁] at hname
      have holder : "Older.g.cs" ≠ name := by
        rintro rfl
        simp at hname
      refine nodeAt?_outputWith hplain ?_
      rw [Table.get?_cons, Table.get?_cons, if_neg holder, if_neg holder]
  obtain ⟨hfailure, -⟩ := flush_retried threeUnits _ hentries hemitted
  obtain ⟨-, hretry⟩ := hfailure _ _ _ run_flush_threeUnits
  obtain ⟨c', n, n₁, u, u₁, hrun, hrun₁, hsame, hmanifest⟩ := hretry t t₁ hcleared hcleared₁
  obtain ⟨-, hagain⟩ := flush_retried threeUnits ⟨t, []⟩ hentries hemitted
  exact ⟨c', n, n₁, u, u₁, hrun, hrun₁, hsame, hmanifest, hagain _ _ _ hrun⟩

end Bindable.OutputCache
