import Bindable.Proofs.Cache.Repetition
import Bindable.Proofs.Cache.Surroundings
import Bindable.Proofs.Command.Session
import Bindable.Proofs.Model.RoundTrip

/-! Generating twice. -/

namespace Bindable.Command

open FileTree OutputCache

variable {i : Invocation} {s : Session} {t : FileTree} {m' : Machine} {input out : String}

/-- After a session that goes well a second one over the same models goes well, says the same and
removes nothing. It writes nothing exactly when files of one name, by whichever model, have one
digest and the first session has left all files in place. -/
theorem runSession_again (htask : i.task = .generate input out)
    (hfirst : (runSession i : StateM Machine _).run ⟨t, []⟩ = ((s, .ok ()), m'))
    (hsame : ((loadInput input : StateM Machine _).run ⟨m'.tree, []⟩).1 =
      ((loadInput input : StateM Machine _).run ⟨(t.makeDirectories out).2, []⟩).1) :
    ∃ models ws again s',
      ((loadInput input : StateM Machine _).run ⟨m'.tree, []⟩).1 = .ok models ∧
      (runSession i : StateM Machine _).run ⟨m'.tree, []⟩ = ((s', .ok ()), ⟨again, []⟩) ∧
      s'.messages = s.messages ∧ s'.hasErrors = s.hasErrors ∧
      (cachedRun out (i.files models) : StateM Machine _).run ⟨m'.tree, []⟩ =
        (.ok (ws, 0), ⟨again, []⟩) ∧
      Repeats out (i.files models) (t.makeDirectories out).2 m'.tree ws again := by
  obtain ⟨opening, hmade⟩ := exists_opening htask hfirst
  obtain ⟨models, ws, n, hloaded, hcached, rfl⟩ := (run_runSession_iff htask hmade).mp hfirst
  obtain ⟨ws', again, hagain, hrepeats⟩ := cachedRun_again hcached
  obtain ⟨opening', written, flushed, rfl, hstages⟩ := exists_stages hcached
  rw [hmade] at hsame
  exact ⟨models, ws', again, i.closing out flushed models, hsame.trans hloaded,
    (run_runSession_iff htask hstages.makeDirectories_flushed).mpr
      ⟨models, ws', 0, hsame.trans hloaded, hagain, rfl⟩, rfl, rfl, hagain, hrepeats⟩

/-- The session goes well, and a second one over what it has left writes a file again. -/
def WritesAgain (i : Invocation) (out : String) (models : List Compilation) (t : FileTree) : Prop :=
  ∃ s s' m' ws again,
    (runSession i : StateM Machine _).run ⟨t, []⟩ = ((s, .ok ()), m') ∧
    (runSession i : StateM Machine _).run ⟨m'.tree, []⟩ = ((s', .ok ()), ⟨again, []⟩) ∧
    (cachedRun out (i.files models) : StateM Machine _).run ⟨m'.tree, []⟩ =
      (.ok (ws, 0), ⟨again, []⟩) ∧ ¬ ∀ w ∈ ws, w = false

/-- A type with one marker. -/
def labelModel (property : String) : Compilation where
  types := [{ (default : TypeDeclaration) with
    name := "Label", kind := .classType
    attributes := [{ (default : Attribute) with
      name := "BindableProperty", typeArguments := [.ofPrimitive .string]
      arguments := [.string property] }] }]

theorem readModel_labelModel (path property : String) :
    readModel path (labelModel property).write = .ok (labelModel property) := by
  have hconstants : ∀ v ∈ (labelModel property).constants, v.toFloating? = none :=
    List.forall_mem_singleton.mpr rfl
  rw [readModel, Compilation.parse?_document hconstants]

def generating (input : String) : Invocation :=
  { flags := [.noGeneratedCodeAttribute], task := .generate input "out" }

/-- The manifest has the file that is to be generated under another name. -/
def aliased : FileTree :=
  .directory [("label.bindable.json", .file (some (labelModel "Text").write)),
    ("out", .directory [(manifestName, .file (some (Manifest.write [("./Label.g.cs", "")])))])]

set_option maxRecDepth 100000 in
/-- The file is written, and removed under its other name. -/
theorem cachedRun_aliased :
    let r := (cachedRun "out" ((generating "label.bindable.json").files [labelModel "Text"]) :
      StateM Machine _).run ⟨aliased, []⟩
    r.1 = .ok ([true], 1) ∧
      r.2.tree.textAt? "label.bindable.json" = some (labelModel "Text").write ∧
      r.2.tree.fileAt (joinPath "out" "Label.g.cs") = false := by
  decide +kernel

section Sharing

/-- Two models of one type with a marker each. -/
def inputs : List (String × FileTree) :=
  [("first.bindable.json", .file (some (labelModel "Text").write)),
    ("second.bindable.json", .file (some (labelModel "Title").write))]

/-- The models beside an output directory with these entries. -/
def sharing (entries : List (String × FileTree)) : FileTree :=
  .directory [("in", .directory inputs), ("out", .directory entries)]

theorem surrounds_sharing : Surrounds sharing "out" ["out"] where
  locateFrom_eq _ := rfl
  updateAt_eq _ _ := rfl

theorem makeDirectories_sharing (entries : List (String × FileTree)) :
    (sharing entries).makeDirectories "out" = (true, sharing entries) :=
  (surrounds_sharing.hasDirectory entries).makeDirectories (by decide +kernel)

theorem run_modelPaths_sharing (entries : List (String × FileTree)) :
    ((modelPaths "in" : StateM Machine _).run ⟨sharing entries, []⟩).1 =
      .ok ["in/first.bindable.json", "in/second.bindable.json"] := by
  have hpath : isPath "in" = true := by decide +kernel
  have hnames : pathNames "in" = ["in"] := by decide +kernel
  have hlocate : (sharing entries).locate "in" = .found ["in"] (.directory inputs) := by
    rw [locate, if_pos hpath, hnames]
    rfl
  have hfile : (sharing entries).fileAt "in" = false := by rw [fileAt, hlocate]
  have hdirectory : (sharing entries).directoryAt "in" = true := by rw [directoryAt, hlocate]
  have hbelow : (directory inputs).filePaths? "in" =
      some [joinPath "in" "first.bindable.json", joinPath "in" "second.bindable.json"] := by
    rw [filePaths?, if_pos hpath]
    rfl
  rw [modelPaths, Machine.run_bind, Machine.run_isFile_eq, hfile, if_neg Bool.false_ne_true,
    Machine.run_bind, Machine.run_isDirectory_eq, hdirectory, if_pos rfl, Machine.run_bind,
    Machine.run_filesBelow_of_locate hlocate, hbelow]
  have hmodels : [joinPath "in" "first.bindable.json", joinPath "in" "second.bindable.json"].filter
      (·.endsWith modelExtension) = ["in/first.bindable.json", "in/second.bindable.json"] := by
    decide +kernel
  exact congrArg Except.ok hmodels

theorem run_loadInput_sharing (entries : List (String × FileTree)) :
    ((loadInput "in" : StateM Machine _).run ⟨sharing entries, []⟩).1 =
      .ok [labelModel "Text", labelModel "Title"] := by
  have hin : (sharing entries).HasDirectory "in" inputs := ⟨["in"], rfl⟩
  have hjoin : "in/first.bindable.json" = joinPath "in" "first.bindable.json" ∧
      "in/second.bindable.json" = joinPath "in" "second.bindable.json" := by decide +kernel
  have hfirst : (sharing entries).textAt? "in/first.bindable.json" =
      some (labelModel "Text").write := by
    rw [hjoin.1, hin.textAt?_eq (by decide), if_pos (by decide +kernel)]
    rfl
  have hsecond : (sharing entries).textAt? "in/second.bindable.json" =
      some (labelModel "Title").write := by
    rw [hjoin.2, hin.textAt?_eq (by decide), if_pos (by decide +kernel)]
    rfl
  refine run_loadInput_of_forall₂ (run_modelPaths_sharing entries) (.cons ?_ (.cons ?_ .nil))
  · rw [hfirst, readText, readModel_labelModel]
  · rw [hsecond, readText, readModel_labelModel]

set_option maxRecDepth 100000 in
/-- The two models have one file name and two digests. -/
theorem not_haveOneDigest_sharing :
    ¬ HaveOneDigest ((generating "in").files [labelModel "Text", labelModel "Title"]) := by
  have hfirst : ∃ f ∈ (generating "in").files [labelModel "Text"], f.hintName = "Label.g.cs" ∧
      f.hash = "c1d080698da6e3a4b1d4b9c7e18d5497bcda152761511822fa9b6106eaa2bc3a" := by
    decide +kernel
  have hsecond : ∃ f ∈ (generating "in").files [labelModel "Title"], f.hintName = "Label.g.cs" ∧
      f.hash = "7e3bd2ca8bbe25aa068c69a4d9c278f05d83dea93b3ce8a601ef090b0913adaa" := by
    decide +kernel
  have hfiles : (generating "in").files [labelModel "Text", labelModel "Title"] =
      (generating "in").files [labelModel "Text"] ++
        (generating "in").files [labelModel "Title"] := by
    simp only [Invocation.files, List.flatMap_cons, List.flatMap_nil, List.append_nil]
  obtain ⟨f, hf, hname, hdigest⟩ := hfirst
  obtain ⟨g, hg, hname', hdigest'⟩ := hsecond
  intro h
  have hsame := h f (hfiles ▸ List.mem_append_left _ hf) g (hfiles ▸ List.mem_append_right _ hg)
    (hname.trans hname'.symm)
  rw [hdigest, hdigest'] at hsame
  exact absurd hsame (by decide)

end Sharing

theorem runSession_again_aliased :
    WritesAgain (generating "label.bindable.json") "out" [labelModel "Text"] aliased ∧
      WritesAgain (generating "in") "out" [labelModel "Text", labelModel "Title"] (sharing []) := by
  have hwrites : ∀ {input : String} {models : List Compilation} {t : FileTree} {ws n},
      let files := (generating input).files models
      let r := (cachedRun "out" files : StateM Machine _).run ⟨t, []⟩
      (t.makeDirectories "out").1 = true →
      ((loadInput input : StateM Machine _).run ⟨(t.makeDirectories "out").2, []⟩).1 = .ok models →
      r.1 = .ok (ws, n) → ((loadInput input : StateM Machine _).run ⟨r.2.tree, []⟩).1 = .ok models →
      ¬ (HaveOneDigest files ∧
        ∀ f ∈ files, r.2.tree.fileAt (joinPath "out" f.hintName) = true) →
      WritesAgain (generating input) "out" models t := by
    intro input models t ws n files r hmade hload hok hreload hnot
    have hfirst := (run_runSession_iff (i := generating input) rfl (Prod.ext hmade rfl)).mpr
      ⟨models, ws, n, hload, Prod.ext hok rfl, rfl⟩
    obtain ⟨models', ws', again, s', hmodels, hsecond, -, -, hagain, hrepeats⟩ :=
      runSession_again rfl hfirst (hreload.trans hload.symm)
    obtain rfl : models = models' := Except.ok.inj (hreload.symm.trans hmodels)
    exact ⟨_, s', r.2, ws', again, hfirst, hsecond, hagain,
      fun hws => hnot (hrepeats.writes_nothing_iff.mp hws)⟩
  constructor
  · obtain ⟨hok, htext, hfile⟩ := cachedRun_aliased
    have hname : ∃ f ∈ (generating "label.bindable.json").files [labelModel "Text"],
        f.hintName = "Label.g.cs" := by
      decide +kernel
    have hread := readModel_labelModel "label.bindable.json" "Text"
    refine hwrites (by decide +kernel) (run_loadInput_of_textAt? (by decide +kernel) hread) hok
      (run_loadInput_of_textAt? htext hread) fun h => ?_
    obtain ⟨f, hf, hhint⟩ := hname
    have hthere := h.2 f hf
    rw [hhint] at hthere
    exact Bool.false_ne_true (hfile.symm.trans hthere)
  · have hnames : ∀ f ∈ (generating "in").files [labelModel "Text", labelModel "Title"],
        IsPlainName f.hintName ∧ canHold "out" f.hintName = true := by
      decide +kernel
    have hlisted : listed "out" (sharing []) = [] := by
      rw [listed, (surrounds_sharing.hasDirectory []).textAt?_eq isPlainName_manifestName,
        if_pos (by decide +kernel)]
      rfl
    obtain ⟨ws, entries, hrun⟩ := surrounds_sharing.exists_cachedRun holdsFiles_nil
      (by decide +kernel) (by decide +kernel) (by simp [hlisted]) hnames
    have hmade := makeDirectories_sharing []
    refine hwrites (congrArg (·.1) hmade) (hmade ▸ run_loadInput_sharing []) (congrArg (·.1) hrun)
      ?_ fun h => not_haveOneDigest_sharing h.1
    rw [hrun]
    exact run_loadInput_sharing entries

end Bindable.Command
