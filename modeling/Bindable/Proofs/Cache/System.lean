import Bindable.Proofs.Cache.Ledger

/-! A machine on which an output directory is used. A run opens the directory, writes files and
flushes, and it can be left at any point. The ledger stays true at every step, whichever file
operations fail. -/

namespace Bindable

open FileTree

inductive CacheStep where
  | openDirectory
  | write (f : SourceFile)
  | flush

/-- A machine with the open cache, and the ledger of what has happened. -/
structure System where
  machine : Machine
  cache : Option OutputCache
  ledger : Ledger

namespace System

def start (t : FileTree) (faults : List Bool) : System :=
  { machine := { tree := t, faults }, cache := none, ledger := .empty }

/-- A cache that was open is given up. -/
def openAt (s : System) (directory : String) : System :=
  let r := (OutputCache.openAt directory : StateM Machine _).run s.machine
  match r.1 with
  | .ok c => { machine := r.2, cache := some c, ledger := s.ledger.opened c.entries.isEmpty }
  | .error _ => { s with machine := r.2, cache := none }

def write (s : System) (f : SourceFile) : Option (Except Fault Bool) × System :=
  match s.cache with
  | none => (none, s)
  | some c =>
    let r := (c.write f : StateM Machine _).run s.machine
    let ledger := if r.1.2.toOption = some true then s.ledger.wrote f else s.ledger
    (some r.1.2, { machine := r.2, cache := some r.1.1, ledger })

/-- The names that a cache no longer has. -/
def gone (before after : OutputCache) : List String :=
  (before.entries.map (·.1)).filter fun name => (after.entries.get? name).isNone

def flush (s : System) : System :=
  match s.cache with
  | none => s
  | some c =>
    let r := (c.flush : StateM Machine _).run s.machine
    let ledger := s.ledger.removed (gone c r.1.1)
    { machine := r.2, cache := some r.1.1, ledger := if r.1.2.isOk then ledger.stored else ledger }

def step (directory : String) (s : System) : CacheStep → System
  | .openDirectory => s.openAt directory
  | .write f => (s.write f).2
  | .flush => s.flush

def run (directory : String) (history : List CacheStep) (s : System) : System :=
  history.foldl (step directory) s

/-- The ledger tells what is in the directory. -/
def InOrder (directory : String) (t : FileTree) (l : Ledger) : Prop :=
  ∃ entries, t.HasDirectory directory entries ∧ HoldsFiles directory entries l.written ∧
    HoldsManifest entries l.saved

/-- The ledger tells what is in the directory and what the cache knows of it. -/
structure Valid (directory : String) (s : System) : Prop where
  inOrder : InOrder directory s.machine.tree s.ledger
  cache : ∀ c, s.cache = some c → c.directory = directory ∧ Records c.entries s.ledger.remembered

variable {directory : String} {s : System} {f : SourceFile} {t : FileTree}

theorem manifest_of_textAt? {entries : List (String × FileTree)} {saved : Table SourceFile}
    {table : Table String} {text : String} (h : t.HasDirectory directory entries)
    (hsaved : HoldsManifest entries saved)
    (htext : t.textAt? (joinPath directory manifestName) = some text)
    (hparse : Manifest.parse? text = some table) : Records table saved := by
  rw [h.textAt?_eq isPlainName_manifestName] at htext
  split at htext
  · rcases hsaved with ⟨hnone, -⟩ | ⟨table', hrecords, hsome⟩
    · simp [hnone] at htext
    · simp only [hsome, Option.some.injEq] at htext
      rw [← htext, Manifest.parse?_write hrecords.sorted, Option.some.injEq] at hparse
      exact hparse ▸ hrecords
  · contradiction

theorem openAt_cases (hmade : s.machine.tree.makeDirectories directory = (true, t))
    (h : InOrder directory t s.ledger) :
    (s.openAt directory).machine.tree = s.machine.tree ∧ (s.openAt directory).cache = none ∧
        (s.openAt directory).ledger = s.ledger ∨
      Valid directory (s.openAt directory) := by
  rcases OutputCache.run_openAt directory s.machine t hmade with
    ⟨⟨e, he⟩, ht⟩ | ⟨ht, c, hc, hdirectory, hentries⟩
  · have hs : s.openAt directory = { s with
        machine := ((OutputCache.openAt directory : StateM Machine _).run s.machine).2
        cache := none } := by
      simp only [openAt, he]
    rw [hs]
    exact .inl ⟨ht, rfl, rfl⟩
  · refine .inr ?_
    simp only [openAt, hc]
    obtain ⟨entries, hhas, hfiles, hsaved⟩ := h
    refine ⟨⟨entries, ht ▸ hhas, hfiles, hsaved⟩, ?_⟩
    rintro c' hc'
    obtain rfl := Option.some.inj hc'
    refine ⟨hdirectory, ?_⟩
    rcases hentries with hnil | ⟨text, htext, hparse⟩
    · simp only [hnil, Ledger.opened]
      exact .nil
    · have hrecords := manifest_of_textAt? hhas hsaved htext hparse
      by_cases hempty : c.entries.isEmpty = true
      · simp only [Ledger.opened, List.isEmpty_iff.mp hempty]
        exact .nil
      · simp only [Ledger.opened, if_neg hempty]
        exact hrecords

theorem write_valid (h : Valid directory s) (hname : IsUnitName f.hintName) :
    Valid directory (s.write f).2 := by
  cases hcache : s.cache with
  | none => simpa only [write, hcache] using h
  | some c =>
    obtain ⟨rfl, hrecords⟩ := h.cache c hcache
    obtain ⟨entries, hhas, hfiles, hsaved⟩ := h.inOrder
    obtain ⟨hdirectory, hcases⟩ := OutputCache.run_write f s.machine hhas hname.toIsPlainName
    rcases hcases with ⟨hok, hentries, ht, -⟩ | ⟨hok, hentries, ht, hhold⟩ | ⟨⟨e, he⟩, hentries, ht⟩
    · simp only [write, hcache, hok]
      refine ⟨⟨entries, ht ▸ hhas, hfiles, hsaved⟩, ?_⟩
      rintro _ ⟨⟩
      exact ⟨hdirectory, hentries ▸ hrecords⟩
    · simp only [write, hcache, hok]
      refine ⟨⟨_, ht, hfiles.insert hhold, hsaved.of_get?_eq ?_⟩, ?_⟩
      · rw [Table.get?_insert, if_neg hname.ne_manifest]
      · rintro _ ⟨⟩
        exact ⟨hdirectory, hentries ▸ hrecords.insert hname⟩
    · simp only [write, hcache, he]
      refine ⟨⟨entries, ht ▸ hhas, hfiles, hsaved⟩, ?_⟩
      rintro _ ⟨⟩
      exact ⟨hdirectory, hentries ▸ hrecords⟩

theorem mem_gone_iff {c : OutputCache} {removed : List String}
    (h : ∀ name ∈ removed, name ∈ c.entries.map (·.1)) (name : String) :
    name ∈ removed ↔ name ∈ gone c { c with entries := c.entries.eraseAll removed } := by
  rw [gone, List.mem_filter, Table.get?_eraseAll]
  by_cases hr : name ∈ removed
  · simp [hr, h name hr]
  · simp only [hr, if_false, false_iff, not_and, Option.isNone_iff_eq_none]
    intro hm hn
    rw [← Table.get?_isSome_iff, hn] at hm
    contradiction

theorem flush_valid (h : Valid directory s) : Valid directory s.flush := by
  cases hcache : s.cache with
  | none => simpa only [flush, hcache] using h
  | some c =>
    obtain ⟨rfl, hrecords⟩ := h.cache c hcache
    obtain ⟨entries, hhas, hfiles, hsaved⟩ := h.inOrder
    obtain ⟨removed, hremoved, hc, hend⟩ := OutputCache.run_flush c s.machine hhas
      fun name hm => (hrecords.names name hm).toIsPlainName
    have hgone := mem_gone_iff hremoved
    have hrecords' := hrecords.eraseAll hgone
    have hfiles' := hfiles.eraseAll hgone
    rcases hend with ⟨⟨n, hn⟩, ht⟩ | ⟨⟨e, he⟩, ht⟩
    · simp only [flush, hcache, hn, hc]
      refine ⟨⟨_, ht, hfiles'.insert_manifest _, .inr ⟨_, hrecords', ?_⟩⟩, ?_⟩
      · rw [Table.get?_insert, if_pos rfl]
      · rintro _ ⟨⟩
        exact ⟨rfl, hrecords'⟩
    · simp only [flush, hcache, he, hc]
      refine ⟨⟨_, ht, hfiles', hsaved.of_get?_eq ?_⟩, ?_⟩
      · rw [Table.get?_eraseAll, if_neg]
        intro hm
        exact (hrecords.names _ (hremoved _ hm)).ne_manifest rfl
      · rintro _ ⟨⟩
        exact ⟨rfl, hrecords'⟩

/-- Before the directory is opened for the first time nothing happens to it. -/
def Untouched (t : FileTree) (s : System) : Prop :=
  s.machine.tree = t ∧ s.cache = none ∧ s.ledger = .empty

variable {t' : FileTree} {history : List CacheStep}

theorem step_valid (hpath : isPath directory = true) (h : Valid directory s) {step : CacheStep}
    (hstep : ∀ f, step = .write f → IsUnitName f.hintName) :
    Valid directory (s.step directory step) := by
  cases step with
  | openDirectory =>
    obtain ⟨entries, hhas, -⟩ := h.inOrder
    rcases openAt_cases (hhas.makeDirectories hpath) h.inOrder with ⟨ht, hc, hl⟩ | hv
    · refine ⟨?_, fun c hs => ?_⟩
      · show InOrder directory (s.openAt directory).machine.tree (s.openAt directory).ledger
        rw [ht, hl]
        exact h.inOrder
      · have hs : (s.openAt directory).cache = some c := hs
        rw [hc] at hs
        contradiction
    · exact hv
  | write f => exact write_valid h (hstep f rfl)
  | flush => exact flush_valid h

theorem step_of_untouched (hmade : t.makeDirectories directory = (true, t'))
    (hempty : t'.HasDirectory directory []) (h : Untouched t s) (step : CacheStep) :
    Untouched t (s.step directory step) ∨ Valid directory (s.step directory step) := by
  obtain ⟨ht, hc, hl⟩ := h
  cases step with
  | openDirectory =>
    have horder : InOrder directory t' s.ledger := by
      rw [hl]
      exact ⟨[], hempty, .nil, .inl ⟨rfl, rfl⟩⟩
    rcases openAt_cases (ht.symm ▸ hmade) horder with ⟨ht', hc', hl'⟩ | hv
    · exact .inl ⟨ht'.trans ht, hc', hl'.trans hl⟩
    · exact .inr hv
  | write f =>
    refine .inl ?_
    simp only [step, write, hc]
    exact ⟨ht, hc, hl⟩
  | flush =>
    refine .inl ?_
    simp only [step, flush, hc]
    exact ⟨ht, hc, hl⟩

theorem run_valid (hmade : t.makeDirectories directory = (true, t'))
    (hempty : t'.HasDirectory directory []) (h : Untouched t s ∨ Valid directory s)
    (hnames : ∀ f, .write f ∈ history → IsUnitName f.hintName) :
    Untouched t (s.run directory history) ∨ Valid directory (s.run directory history) := by
  induction history generalizing s with
  | nil => exact h
  | cons step history ih =>
    refine ih ?_ fun f hf => hnames f (List.mem_cons_of_mem _ hf)
    rcases h with h | h
    · exact step_of_untouched hmade hempty h step
    · exact .inr (step_valid (isPath_of_makeDirectories hmade) h fun f he =>
        hnames f (he ▸ List.mem_cons_self))

end System

end Bindable
