import Bindable.Proofs.Cache.System

/-! Histories of an output directory. The manifest is written by a flush alone, so what a run writes
without a flush is not known to the next one: a file can be passed over that has another text by
then. That is the only way to go wrong. -/

namespace Bindable.System

variable {directory : String} {s : System} {f : SourceFile} {t t' : FileTree}
  {history : List CacheStep}

theorem write_holds_iff_of_valid (h : Valid directory s) (hname : IsUnitName f.hintName) {b : Bool}
    (hok : (s.write f).1 = some (.ok b)) :
    (s.write f).2.machine.tree.textAt? (joinPath directory f.hintName) = some f.text ↔
      ¬(b = false ∧ s.ledger.Misremembers f) := by
  have hvalid := write_valid h hname
  obtain ⟨entries', hhas', hfiles', -⟩ := hvalid.inOrder
  rw [hfiles'.textAt?_eq hhas' hname]
  cases hcache : s.cache with
  | none => simp [write, hcache] at hok
  | some c =>
    obtain ⟨rfl, hrecords⟩ := h.cache c hcache
    obtain ⟨entries, hhas, hfiles, -⟩ := h.inOrder
    simp only [write, hcache, Option.some.injEq] at hok
    obtain ⟨-, ⟨hfalse, -, -, hhash, hfile⟩ | ⟨htrue, -⟩ | ⟨⟨e, he⟩, -⟩⟩ :=
      OutputCache.run_write f s.machine hhas hname.toIsPlainName
    · obtain rfl : false = b := Except.ok.inj (hfalse.symm.trans hok)
      have hfile : s.machine.tree.fileAt (joinPath c.directory f.hintName) = true := hfile
      rw [hfiles.fileAt_eq hhas hname, Option.isSome_iff_exists] at hfile
      obtain ⟨w, hw⟩ := hfile
      rw [hrecords.get?_eq, Option.map_eq_some_iff] at hhash
      obtain ⟨v, hv, hvf⟩ := hhash
      have hledger : (s.write f).2.ledger = s.ledger := by
        simp only [write, hcache, hfalse]
        rfl
      rw [hledger, hw, Option.map_some, Option.some.injEq]
      constructor
      · rintro htext ⟨-, v', w', -, -, hw', hne⟩
        obtain rfl := Option.some.inj (hw.symm.trans hw')
        exact hne htext
      · intro hnot
        by_contra hne
        exact hnot ⟨rfl, v, w, hv, hvf, hw, hne⟩
    · obtain rfl : true = b := Except.ok.inj (htrue.symm.trans hok)
      simp only [write, hcache, htrue]
      simp [Ledger.wrote, Table.get?_insert, Except.toOption]
    · rw [he] at hok
      contradiction

theorem write_of_misremembers (h : Valid directory s) (hname : IsUnitName f.hintName)
    (hopen : s.cache.isSome) (hfaults : s.machine.faults = [])
    (hforgot : s.ledger.Misremembers f) : (s.write f).1 = some (.ok false) := by
  obtain ⟨c, hcache⟩ := Option.isSome_iff_exists.mp hopen
  obtain ⟨rfl, hrecords⟩ := h.cache c hcache
  obtain ⟨entries, hhas, hfiles, -⟩ := h.inOrder
  obtain ⟨v, w, hv, hhash, hw, -⟩ := hforgot
  have hknown : c.entries.get? f.hintName = some f.hash := by
    rw [hrecords.get?_eq, hv, Option.map_some, hhash]
  have hfile : s.machine.tree.fileAt (c.path f.hintName) = true := by
    rw [OutputCache.path, hfiles.fileAt_eq hhas hname, hw]
    rfl
  simp only [write, hcache, OutputCache.run_write_of_fresh hfaults hknown hfile]

/-- A file that is written or passed over is in the directory with its text, unless it is passed
over while the directory holds another text that the cache does not know of. Whatever is
misremembered like that is passed over. -/
theorem write_holds_iff (hmade : t.makeDirectories directory = (true, t'))
    (hempty : t'.HasDirectory directory []) (faults : List Bool)
    (hnames : ∀ f, .write f ∈ history → IsUnitName f.hintName) (hname : IsUnitName f.hintName) :
    let s := (start t faults).run directory history
    (∀ b, (s.write f).1 = some (.ok b) →
      ((s.write f).2.machine.tree.textAt? (joinPath directory f.hintName) = some f.text ↔
        ¬(b = false ∧ s.ledger.Misremembers f))) ∧
    (s.cache.isSome → s.machine.faults = [] → s.ledger.Misremembers f →
      (s.write f).1 = some (.ok false)) := by
  intro s
  have hstart : Untouched t (start t faults) := ⟨rfl, rfl, rfl⟩
  rcases run_valid hmade hempty (.inl hstart) hnames with ⟨-, hc, -⟩ | hv
  · have hc : s.cache = none := hc
    refine ⟨fun b hok => ?_, fun hsome => ?_⟩
    · simp [write, hc] at hok
    · simp [hc] at hsome
  · exact ⟨fun _ hok => write_holds_iff_of_valid hv hname hok, write_of_misremembers hv hname⟩

def firstText : SourceFile := .ofText "A.g.cs" "a"

def secondText : SourceFile := .ofText "A.g.cs" "b"

/-- The second run writes another text and is left before it flushes. -/
def abandonedRun : List CacheStep :=
  [.openDirectory, .write firstText, .flush, .openDirectory, .write secondText, .openDirectory]

theorem isUnitName_of_mem_abandonedRun :
    ∀ f, .write f ∈ abandonedRun → IsUnitName f.hintName := by
  intro f hf
  have hf : f = firstText ∨ f = secondText := by simpa [abandonedRun] using hf
  rcases hf with rfl | rfl <;> decide

set_option maxRecDepth 100000 in
theorem ledger_abandonedRun :
    let s := (start (.directory []) []).run "out" abandonedRun
    s.cache.isSome ∧ s.machine.faults = [] ∧
      s.ledger.remembered.get? firstText.hintName = some firstText ∧
      s.ledger.written.get? firstText.hintName = some secondText := by
  decide +kernel

/-- The third run passes over the first text, although the second one is in the directory. -/
theorem write_holds_iff_abandonedRun :
    let s := (start (.directory []) []).run "out" abandonedRun
    (s.write firstText).1 = some (.ok false) ∧
      (s.write firstText).2.machine.tree.textAt? (joinPath "out" firstText.hintName) ≠
        some firstText.text := by
  obtain ⟨hopen, hfaults, hremembered, hwritten⟩ := ledger_abandonedRun
  have hmade : (FileTree.directory []).makeDirectories "out" =
      (true, .directory [("out", .directory [])]) := rfl
  have hempty : (FileTree.directory [("out", .directory [])]).HasDirectory "out" [] :=
    ⟨["out"], rfl⟩
  have hname : IsUnitName firstText.hintName :=
    isUnitName_of_mem_abandonedRun firstText (by simp [abandonedRun])
  obtain ⟨hholds, hpassed⟩ := write_holds_iff hmade hempty [] isUnitName_of_mem_abandonedRun hname
  have hwrong : ((start (.directory []) []).run "out" abandonedRun).ledger.Misremembers firstText :=
    ⟨firstText, secondText, hremembered, rfl, hwritten, by decide⟩
  have hok := hpassed hopen hfaults hwrong
  exact ⟨hok, fun htext => (hholds false hok).mp htext ⟨rfl, hwrong⟩⟩

section Settled

/-- No file that the manifest knows of has been replaced since. -/
def Settled (l : Ledger) : Prop :=
  ∀ name v w, l.saved.get? name = some v → l.written.get? name = some w → v = w

/-- Nothing is left unsettled for the next run. -/
def OpensSettled (directory : String) : List CacheStep → System → Prop
  | [], _ => True
  | step :: history, s =>
    (step = .openDirectory → Settled s.ledger) ∧
      OpensSettled directory history (s.step directory step)

/-- The cache remembers what is in the directory, and only files of a certain kind. -/
structure Remembers (known : SourceFile → Prop) (l : Ledger) : Prop where
  written : ∀ name v w, l.remembered.get? name = some v → l.written.get? name = some w → v = w
  remembered : ∀ name v, l.remembered.get? name = some v → known v
  saved : ∀ name v, l.saved.get? name = some v → known v

variable {known : SourceFile → Prop} {l : Ledger}

theorem Remembers.empty : Remembers known .empty := by
  refine ⟨fun name v w hv => ?_, fun name v hv => ?_, fun name v hv => ?_⟩ <;>
    rw [Ledger.empty, Table.get?_nil] at hv <;> contradiction

theorem Remembers.opened (h : Remembers known l) (hsettled : Settled l) (blank : Bool) :
    Remembers known (l.opened blank) := by
  cases blank with
  | true =>
    refine ⟨fun name v w hv => ?_, fun name v hv => ?_, h.saved⟩ <;>
      simp [Ledger.opened, Table.get?_nil] at hv
  | false => exact ⟨hsettled, h.saved, h.saved⟩

theorem Remembers.wrote (h : Remembers known l) (hf : known f) : Remembers known (l.wrote f) := by
  refine ⟨fun name v w hv hw => ?_, fun name v hv => ?_, h.saved⟩
  · rw [Ledger.wrote, Table.get?_insert] at hv hw
    by_cases he : f.hintName = name
    · rw [if_pos he] at hv hw
      exact Option.some.inj (hv.symm.trans hw)
    · rw [if_neg he] at hv hw
      exact h.written name v w hv hw
  · rw [Ledger.wrote, Table.get?_insert] at hv
    by_cases he : f.hintName = name
    · rw [if_pos he] at hv
      exact Option.some.inj hv ▸ hf
    · rw [if_neg he] at hv
      exact h.remembered name v hv

theorem Remembers.removed (h : Remembers known l) (names : List String) :
    Remembers known (l.removed names) := by
  refine ⟨fun name v w hv hw => ?_, fun name v hv => ?_, h.saved⟩
  · rw [Ledger.removed, Table.get?_eraseAll] at hv hw
    by_cases hn : name ∈ names
    · rw [if_pos hn] at hv
      contradiction
    · rw [if_neg hn] at hv hw
      exact h.written name v w hv hw
  · rw [Ledger.removed, Table.get?_eraseAll] at hv
    by_cases hn : name ∈ names
    · rw [if_pos hn] at hv
      contradiction
    · rw [if_neg hn] at hv
      exact h.remembered name v hv

theorem Remembers.stored (h : Remembers known l) : Remembers known l.stored :=
  ⟨h.written, h.remembered, h.remembered⟩

theorem Remembers.step (h : Remembers known s.ledger) {step : CacheStep}
    (hopen : step = .openDirectory → Settled s.ledger) (hwrite : ∀ f, step = .write f → known f) :
    Remembers known (s.step directory step).ledger := by
  cases step with
  | openDirectory =>
    simp only [System.step, openAt]
    split
    · exact h.opened (hopen rfl) _
    · exact h
  | write f =>
    simp only [System.step, write]
    split
    · exact h
    · show Remembers known (if _ then _ else _)
      split
      · exact h.wrote (hwrite f rfl)
      · exact h
  | flush =>
    simp only [System.step, flush]
    split
    · exact h
    · show Remembers known (if _ then _ else _)
      split
      · exact (h.removed _).stored
      · exact h.removed _

theorem Remembers.run (h : Remembers known s.ledger) (hopens : OpensSettled directory history s)
    (hwrites : ∀ f, .write f ∈ history → known f) :
    Remembers known (s.run directory history).ledger := by
  induction history generalizing s with
  | nil => exact h
  | cons step history ih =>
    exact ih (h.step hopens.1 fun f he => hwrites f (he ▸ List.mem_cons_self)) hopens.2
      fun f hf => hwrites f (List.mem_cons_of_mem _ hf)

/-- When no run leaves anything unsettled, every file that is written or passed over is in the
directory with its text, as long as files of one digest have one text. -/
theorem write_holds_of_settled (hmade : t.makeDirectories directory = (true, t'))
    (hempty : t'.HasDirectory directory []) (faults : List Bool)
    (hnames : ∀ g, .write g ∈ history → IsUnitName g.hintName) (hname : IsUnitName f.hintName)
    (hsettled : OpensSettled directory history (start t faults))
    (hdigest : ∀ g, .write g ∈ history → g.hash = f.hash → g.text = f.text) {b : Bool}
    (hok : (((start t faults).run directory history).write f).1 = some (.ok b)) :
    (((start t faults).run directory history).write f).2.machine.tree.textAt?
      (joinPath directory f.hintName) = some f.text := by
  have hstart : Untouched t (start t faults) := ⟨rfl, rfl, rfl⟩
  have hempty' : Remembers (fun g => g.hash = f.hash → g.text = f.text) (start t faults).ledger :=
    .empty
  have hledger := hempty'.run hsettled hdigest
  rcases run_valid hmade hempty (.inl hstart) hnames with ⟨-, hc, -⟩ | hv
  · simp [write, hc] at hok
  · apply (write_holds_iff_of_valid hv hname hok).mpr
    rintro ⟨-, v, w, hremembered, hhash, hwritten, hne⟩
    obtain rfl := hledger.written _ v w hremembered hwritten
    exact hne (hledger.remembered _ v hremembered hhash)

end Settled

end Bindable.System
