import Bindable.Command.Run
import Bindable.Proofs.Cache.Settling
import Bindable.Proofs.Emission.Sources

/-! A session is a run of the output cache over the files of all its models. Models are loaded while
files are written, but no file that is written is a model. -/

namespace Bindable

open FileTree

namespace Compilation

/-- What is generated unless the run is cancelled. -/
def output (c : Compilation) (o : Options) : Output :=
  { c.emit o with
    diagnostics := (c.emit o).diagnostics ++
      if o.runAnalyzers then c.analyze Analyzer.all else [] }

theorem generateWith_false (c : Compilation) (o : Options) :
    c.generateWith o false = .ok (c.output o) := by
  rw [generateWith, output]
  cases o.runAnalyzers with
  | true => rfl
  | false =>
    rw [if_neg Bool.false_ne_true, List.append_nil]
    rfl

theorem hintName_endsWith {c : Compilation} {o : Options} {f : SourceFile}
    (hf : f ∈ (c.output o).sources) : f.hintName.endsWith ".g.cs" = true := by
  obtain ⟨e, -, he⟩ := List.mem_filterMap.mp ((firstByHint_sublist _).subset hf)
  obtain ⟨-, rfl⟩ := Entry.sourceFile?_eq_some.mp he
  obtain ⟨body, -, hname⟩ := toList_hintName e.type e.family
  rw [endsWith_iff]
  exact hname ▸ List.suffix_append _ _

end Compilation

namespace Command

section Loading

variable {m : Type → Type} [Monad m] [FileStore m]

def loadAll : List String → m (Except Failure (List Compilation))
  | [] => return .ok []
  | path :: rest => do
    match ← loadModel path with
    | .error e => return .error (.fault e)
    | .ok c =>
      match ← loadAll rest with
      | .error e => return .error e
      | .ok models => return .ok (c :: models)

/-- The models of an input, one after the other. -/
def loadInput (input : String) : m (Except Failure (List Compilation)) := do
  match ← modelPaths input with
  | .error e => return .error e
  | .ok paths => loadAll paths

end Loading

def Invocation.output (i : Invocation) (c : Compilation) : Output := c.output (i.options c.options)

/-- The files that are generated for models, model by model. -/
def Invocation.files (i : Invocation) (models : List Compilation) : List SourceFile :=
  models.flatMap fun c => (i.output c).sources

/-- What is said about models. -/
def Session.telling (s : Session) (i : Invocation) (models : List Compilation) : Session :=
  models.foldl (fun s c => s.tell (i.output c)) s

variable {i : Invocation} {s s' : Session} {c c' : OutputCache} {t t' u : FileTree} {m' : Machine}
  {path input out : String} {paths : List String} {models : List Compilation} {ws : List Bool}

section Reads

/-- The model in a text, if there is one. -/
def readText (path : String) : Option String → Except Fault Compilation
  | some text => readModel path text
  | none => .error (.io path)

theorem run_loadModel (t : FileTree) (path : String) :
    (loadModel path : StateM Machine _).run ⟨t, []⟩ =
      (readText path (t.textAt? path), ⟨t, []⟩) := by
  rw [loadModel, Machine.run_bind, Machine.run_readText?_eq]
  cases t.textAt? path <;> rfl

/-- Loading changes nothing, and each model is loaded from its own text. -/
theorem run_loadAll (t : FileTree) (paths : List String) :
    (loadAll paths : StateM Machine _).run ⟨t, []⟩ =
      (paths.mapM fun path => (readText path (t.textAt? path)).mapError .fault, ⟨t, []⟩) := by
  induction paths with
  | nil => rfl
  | cons path paths ih =>
    rw [loadAll, Machine.run_bind, run_loadModel, List.mapM_cons]
    cases readText path (t.textAt? path) with
    | error e => rfl
    | ok c =>
      dsimp only
      rw [Machine.run_bind, ih]
      cases paths.mapM fun path => (readText path (t.textAt? path)).mapError Failure.fault <;> rfl

theorem run_loadAll_congr (h : ∀ path ∈ paths, u.textAt? path = t.textAt? path) :
    ((loadAll paths : StateM Machine _).run ⟨u, []⟩).1 =
      ((loadAll paths : StateM Machine _).run ⟨t, []⟩).1 := by
  rw [run_loadAll, run_loadAll]
  dsimp only
  induction paths with
  | nil => rfl
  | cons path paths ih =>
    rw [List.forall_mem_cons] at h
    rw [List.mapM_cons, List.mapM_cons, h.1, ih h.2]

/-- Finding models changes nothing, and from the second on they have the extension of models. -/
theorem run_modelPaths (t : FileTree) (input : String) :
    ∃ found, (modelPaths input : StateM Machine _).run ⟨t, []⟩ = (found, ⟨t, []⟩) ∧
      ∀ paths, found = .ok paths → ∀ path ∈ paths.tail, path.endsWith modelExtension = true := by
  obtain ⟨below, hbelow⟩ := Machine.run_filesBelow_eq t input
  rw [modelPaths, Machine.run_bind, Machine.run_isFile_eq]
  by_cases hf : t.fileAt input = true
  · rw [if_pos hf]
    exact ⟨.ok [input], rfl, by simp⟩
  rw [if_neg hf, Machine.run_bind, Machine.run_isDirectory_eq]
  by_cases hd : t.directoryAt input = true
  · rw [if_pos hd, Machine.run_bind, hbelow]
    cases below with
    | none => exact ⟨.error (.noListing input), rfl, by simp⟩
    | some paths =>
      refine ⟨.ok (paths.filter (·.endsWith modelExtension)), rfl, ?_⟩
      rintro paths' ⟨⟩ path hpath
      exact (List.mem_filter.mp (List.mem_of_mem_tail hpath)).2
  · rw [if_neg hd]
    exact ⟨.error (.noInput input), rfl, by simp⟩

theorem run_loadAll_cons {rest : List String} :
    ((loadAll (path :: rest) : StateM Machine _).run ⟨t, []⟩).1 = .ok models ↔
      ∃ model others, models = model :: others ∧ readText path (t.textAt? path) = .ok model ∧
        ((loadAll rest : StateM Machine _).run ⟨t, []⟩).1 = .ok others := by
  rw [run_loadAll, run_loadAll, List.mapM_cons]
  dsimp only
  rcases readText path (t.textAt? path) with e | model
  · constructor
    · rintro ⟨⟩
    · rintro ⟨_, _, -, ⟨⟩, -⟩
  rcases rest.mapM fun path => (readText path (t.textAt? path)).mapError Failure.fault with
    e | others
  · constructor
    · rintro ⟨⟩
    · rintro ⟨_, _, -, -, ⟨⟩⟩
  · constructor
    · rintro ⟨⟩
      exact ⟨model, others, rfl, rfl, rfl⟩
    · rintro ⟨_, _, rfl, ⟨⟩, ⟨⟩⟩
      rfl

end Reads

section Writes

open OutputCache

/-- No name ends both as a model and as a generated file. -/
theorem not_isSuffix_of_isSuffix {name : List Char} (h : ".g.cs".toList <:+ name) :
    ¬ modelExtension.toList <:+ name := by
  intro hmodel
  exact absurd (List.suffix_of_suffix_length_le h hmodel (by decide)) (by decide)

/-- Writing generated files leaves models as they are. -/
theorem textAt?_of_putsAll {files : List SourceFile} (h : c.PutsAll files t ws t')
    (hroot : t.kind? [] = some .directory)
    (hnames : ∀ f ∈ files, f.hintName.endsWith ".g.cs" = true)
    (hpath : path.endsWith modelExtension = true) : t'.textAt? path = t.textAt? path := by
  refine (file_eq_of_sameDirectories hroot h.same fun names hleads => ?_).2
  refine h.kept names fun f hf hwritten => ?_
  obtain ⟨R, name, rfl, hmodel⟩ := hleads.exists_last hroot (by decide) (by decide) hpath
  have hends : (c.path f.hintName).endsWith ".g.cs" = true := by
    obtain ⟨around, haround⟩ := exists_joinPath_eq c.directory f.hintName
    rw [OutputCache.path, haround, endsWith_iff, String.toList_append]
    exact (endsWith_iff.mp (hnames f hf)).trans (List.suffix_append _ _)
  obtain ⟨R', name', heq, hgenerated⟩ := hwritten.exists_last hroot (by decide) (by decide) hends
  obtain rfl := List.singleton_inj.mp (List.append_inj_right' heq rfl)
  exact not_isSuffix_of_isSuffix hgenerated hmodel

theorem run_writeFiles (c : OutputCache) (files : List SourceFile) (m : Machine) :
    (writeFiles c files : StateM Machine _).run m =
      ((((c.writeAll files : StateM Machine _).run m).1.1,
        ((c.writeAll files : StateM Machine _).run m).1.2.map fun _ => ()),
        ((c.writeAll files : StateM Machine _).run m).2) := by
  induction files generalizing c m with
  | nil => rfl
  | cons f files ih =>
    rw [writeFiles, writeAll, Machine.run_bind, Machine.run_bind]
    rcases (c.write f : StateM Machine _).run m with ⟨⟨c₁, e | b⟩, m₁⟩
    · rfl
    · dsimp only
      rw [ih, Machine.run_bind]
      rcases (c₁.writeAll files : StateM Machine _).run m₁ with ⟨⟨c₂, e | bs⟩, m₂⟩ <;> rfl

/-- A model that is loaded has its files written. -/
theorem run_runModel (hcache : s.cache = some c) :
    (runModel i s path : StateM Machine _).run ⟨t, []⟩ = ((s', .ok ()), m') ↔
      ∃ model c' ws, readText path (t.textAt? path) = .ok model ∧
        (c.writeAll (i.output model).sources : StateM Machine _).run ⟨t, []⟩ =
          ((c', .ok ws), m') ∧ s' = { s.tell (i.output model) with cache := some c' } := by
  rw [runModel, Machine.run_bind, run_loadModel]
  rcases readText path (t.textAt? path) with e | model
  · constructor
    · rintro ⟨⟩
    · rintro ⟨_, _, _, ⟨⟩, -⟩
  have htell : (s.tell (i.output model)).cache = some c := hcache
  dsimp only
  rw [Compilation.generateWith_false]
  dsimp only
  rw [← Invocation.output, htell]
  dsimp only
  rw [Machine.run_bind, run_writeFiles]
  rcases hw : (c.writeAll (i.output model).sources : StateM Machine _).run ⟨t, []⟩ with
    ⟨⟨c₁, e | ws⟩, m₁⟩
  · constructor
    · rintro ⟨⟩
    · rintro ⟨_, _, _, ⟨⟩, hw', -⟩
      rw [hw] at hw'
      cases hw'
  · constructor
    · rintro ⟨⟩
      exact ⟨model, c₁, ws, rfl, hw, rfl⟩
    · rintro ⟨_, _, _, ⟨⟩, hw', rfl⟩
      rw [hw] at hw'
      cases hw'
      rfl

theorem telling_withCache (s : Session) (i : Invocation) (models : List Compilation)
    (cache : Option OutputCache) :
    ({ s with cache := cache } : Session).telling i models =
      { s.telling i models with cache := cache } := by
  induction models generalizing s with
  | nil => rfl
  | cons model models ih => exact ih (s.tell (i.output model))

theorem telling_cons (s : Session) (i : Invocation) (model : Compilation)
    (models : List Compilation) (before after : Option OutputCache) :
    { ({ s.tell (i.output model) with cache := before } : Session).telling i models with
      cache := after } = { s.telling i (model :: models) with cache := after } := by
  rw [telling_withCache]
  rfl

theorem run_runModels_cons {m : Machine} :
    (runModels i s (path :: paths) : StateM Machine _).run m = ((s', .ok ()), m') ↔
      ∃ s₁ m₁, (runModel i s path : StateM Machine _).run m = ((s₁, .ok ()), m₁) ∧
        (runModels i s₁ paths : StateM Machine _).run m₁ = ((s', .ok ()), m') := by
  rw [runModels, Machine.run_bind]
  rcases (runModel i s path : StateM Machine _).run m with ⟨⟨s₁, e | u⟩, m₁⟩
  · constructor
    · rintro ⟨⟩
    · rintro ⟨_, _, ⟨⟩, -⟩
  · constructor
    · intro h
      exact ⟨s₁, m₁, rfl, h⟩
    · rintro ⟨_, _, ⟨⟩, h⟩
      exact h

/-- Running models comes to loading all of them and writing all their files. -/
theorem run_runModels (hcache : s.cache = some c) (hsorted : c.entries.Sorted)
    (hroot : t.kind? [] = some .directory)
    (hpaths : ∀ path ∈ paths.tail, path.endsWith modelExtension = true) :
    (runModels i s paths : StateM Machine _).run ⟨t, []⟩ = ((s', .ok ()), m') ↔
      ∃ models c' ws, ((loadAll paths : StateM Machine _).run ⟨t, []⟩).1 = .ok models ∧
        (c.writeAll (i.files models) : StateM Machine _).run ⟨t, []⟩ = ((c', .ok ws), m') ∧
        s' = { s.telling i models with cache := some c' } := by
  induction paths generalizing s c t s' with
  | nil =>
    constructor
    · rintro ⟨⟩
      exact ⟨[], c, [], rfl, rfl, by rw [Session.telling, List.foldl_nil, ← hcache]⟩
    · rintro ⟨_, _, _, ⟨⟩, ⟨⟩, rfl⟩
      rw [Session.telling, List.foldl_nil, ← hcache]
      rfl
  | cons path paths ih =>
    -- what the first model has written changes none of the others
    have hload : ∀ {model ws₁ t₁}, c.PutsAll (i.output model).sources t ws₁ t₁ →
        ((loadAll paths : StateM Machine _).run ⟨t₁, []⟩).1 =
          ((loadAll paths : StateM Machine _).run ⟨t, []⟩).1 := fun hputs =>
      run_loadAll_congr fun path hpath => textAt?_of_putsAll hputs hroot
        (fun f hf => Compilation.hintName_endsWith hf) (hpaths path hpath)
    have hrest : ∀ path ∈ paths.tail, path.endsWith modelExtension = true :=
      fun path hpath => hpaths path (List.mem_of_mem_tail hpath)
    rw [run_runModels_cons]
    constructor
    · rintro ⟨s₁, m₁, hfirst, hothers⟩
      obtain ⟨model, c₁, ws₁, hread, hw, rfl⟩ := (run_runModel hcache).mp hfirst
      obtain ⟨t₁, rfl, rfl, hputs⟩ := run_writeAll_ok hsorted hroot hw
      obtain ⟨models, c', ws, hmodels, hfiles, rfl⟩ :=
        (ih rfl (sorted_foldl_recorded hsorted _) ((hputs.same []).mp hroot) hrest).mp hothers
      refine ⟨model :: models, c', ws₁ ++ ws,
        run_loadAll_cons.mpr ⟨model, models, rfl, hread, hload hputs ▸ hmodels⟩,
        run_writeAll_append.mpr ⟨_, _, ws₁, ws, rfl, hw, hfiles⟩, telling_cons ..⟩
    · rintro ⟨_, c', ws, hmodels, hfiles, rfl⟩
      obtain ⟨model, models, rfl, hread, hmodels⟩ := run_loadAll_cons.mp hmodels
      obtain ⟨_, _, ws₁, ws₂, rfl, hw, hfiles⟩ := run_writeAll_append.mp hfiles
      obtain ⟨t₁, rfl, rfl, hputs⟩ := run_writeAll_ok hsorted hroot hw
      refine ⟨_, _, (run_runModel hcache).mpr ⟨model, _, ws₁, hread, hw, rfl⟩, ?_⟩
      exact (ih rfl (sorted_foldl_recorded hsorted _) ((hputs.same []).mp hroot) hrest).mpr
        ⟨models, c', ws₂, (hload hputs).trans hmodels, hfiles, (telling_cons ..).symm⟩

end Writes

section Sessions

open OutputCache

/-- How a session ends that goes well. -/
def Invocation.closing (i : Invocation) (out : String) (opening : FileTree)
    (models : List Compilation) : Session :=
  { ({ cache := none } : Session).telling i models with
    cache := some ((i.files models).foldl recorded (opened out opening)) }

theorem closing_eq (i : Invocation) (out : String) (opening : FileTree)
    (models : List Compilation) :
    i.closing out opening models =
      { ({ cache := some (opened out opening) } : Session).telling i models with
        cache := some ((i.files models).foldl recorded (opened out opening)) } := by
  rw [telling_withCache { cache := none } i models (some (opened out opening))]
  rfl

/-- The models of an input, each from the text of its file. -/
theorem run_loadInput_of_forall₂
    (hfound : ((modelPaths input : StateM Machine _).run ⟨t, []⟩).1 = .ok paths)
    (hread : List.Forall₂ (fun path model => readText path (t.textAt? path) = .ok model)
      paths models) :
    ((loadInput input : StateM Machine _).run ⟨t, []⟩).1 = .ok models := by
  obtain ⟨found, hrun, -⟩ := run_modelPaths t input
  rw [hrun] at hfound
  obtain rfl : found = .ok paths := hfound
  have hloaded : ((loadAll paths : StateM Machine _).run ⟨t, []⟩).1 = .ok models := by
    clear hrun
    induction hread with
    | nil => rfl
    | cons hmodel _ ih => exact run_loadAll_cons.mpr ⟨_, _, rfl, hmodel, ih⟩
  rwa [loadInput, Machine.run_bind, hrun]

/-- The model of an input that is a file. -/
theorem run_loadInput_of_textAt? {text : String} {model : Compilation}
    (htext : t.textAt? input = some text) (hread : readModel input text = .ok model) :
    ((loadInput input : StateM Machine _).run ⟨t, []⟩).1 = .ok [model] := by
  refine run_loadInput_of_forall₂ (show _ = Except.ok [input] from ?_) (.cons ?_ .nil)
  · rw [modelPaths, Machine.run_bind, Machine.run_isFile_eq, fileAt_of_textAt? htext]
    rfl
  · rw [htext, readText, hread]

theorem exists_opening (htask : i.task = .generate input out)
    (hrun : (runSession i : StateM Machine _).run ⟨t, []⟩ = ((s, .ok ()), m')) :
    ∃ opening, t.makeDirectories out = (true, opening) := by
  rcases ho : (openAt out : StateM Machine _).run ⟨t, []⟩ with ⟨e | c, m₀⟩
  · rw [runSession, Machine.run_bind, htask, openCache, Machine.run_bind, ho] at hrun
    cases hrun
  · exact ⟨m₀.tree, (run_openAt_ok (by simp) ho).1⟩

/-- Once the directory has been opened models are found, run one by one, and the cache is flushed. -/
theorem run_runSession {opening : FileTree} (htask : i.task = .generate input out)
    (hmade : t.makeDirectories out = (true, opening)) :
    (runSession i : StateM Machine _).run ⟨t, []⟩ = ((s, .ok ()), m') ↔
      ∃ paths m₁ c₂ n,
        (modelPaths input : StateM Machine _).run ⟨opening, []⟩ = (.ok paths, ⟨opening, []⟩) ∧
        (runModels i { cache := some (opened out opening) } paths : StateM Machine _).run
          ⟨opening, []⟩ = ((s, .ok ()), m₁) ∧
        ∃ c₁, s.cache = some c₁ ∧ (c₁.flush : StateM Machine _).run m₁ = ((c₂, .ok n), m') := by
  have hopen : (openCache i.task : StateM Machine _).run ⟨t, []⟩ =
      (.ok (some (opened out opening)), ⟨opening, []⟩) := by
    rw [htask, openCache, Machine.run_bind, run_openAt_made hmade]
    rfl
  have hinput : i.task.input = input := by rw [htask]; rfl
  obtain ⟨found, hfound, hpaths⟩ := run_modelPaths opening input
  have hroot : opening.kind? [] = some .directory := by
    obtain ⟨entries, hhas⟩ := hasDirectory_of_makeDirectories hmade
    exact hhas.kind?_nil
  rw [runSession, Machine.run_bind, hopen]
  dsimp only
  rw [Machine.run_bind, hinput, hfound]
  rcases found with e | paths
  · constructor
    · rintro ⟨⟩
    · rintro ⟨_, _, _, _, ⟨⟩, -⟩
  dsimp only
  rw [Machine.run_bind]
  rcases hmodels : (runModels i { cache := some (opened out opening) } paths :
    StateM Machine _).run ⟨opening, []⟩ with ⟨⟨s₁, e | u⟩, m₁⟩
  · constructor
    · rintro ⟨⟩
    · rintro ⟨_, _, _, _, ⟨⟩, hrun, -⟩
      rw [hmodels] at hrun
      cases hrun
  obtain ⟨models, c₁, ws, -, -, rfl⟩ :=
    (run_runModels rfl (sorted_listed out opening) hroot (hpaths paths rfl)).mp hmodels
  dsimp only
  rw [Machine.run_bind, flushCache, Machine.run_bind]
  rcases hf : (c₁.flush : StateM Machine _).run m₁ with ⟨⟨c₂, e | n⟩, m₂⟩
  · constructor
    · rintro ⟨⟩
    · rintro ⟨_, _, _, _, ⟨⟩, hrun, _, hcache, hflush⟩
      rw [hmodels] at hrun
      cases hrun
      cases hcache
      rw [hf] at hflush
      cases hflush
  · constructor
    · rintro ⟨⟩
      exact ⟨paths, m₁, c₂, n, rfl, hmodels, c₁, rfl, hf⟩
    · rintro ⟨_, _, _, _, ⟨⟩, hrun, _, hcache, hflush⟩
      rw [hmodels] at hrun
      cases hrun
      cases hcache
      rw [hf] at hflush
      cases hflush
      rfl

/-- A session goes well when a run of the cache over the files of its models does. All of them are
as they were when the directory had been opened. -/
theorem run_runSession_iff {opening : FileTree} (htask : i.task = .generate input out)
    (hmade : t.makeDirectories out = (true, opening)) :
    (runSession i : StateM Machine _).run ⟨t, []⟩ = ((s, .ok ()), m') ↔
      ∃ models ws n, ((loadInput input : StateM Machine _).run ⟨opening, []⟩).1 = .ok models ∧
        (cachedRun out (i.files models) : StateM Machine _).run ⟨t, []⟩ = (.ok (ws, n), m') ∧
        s = i.closing out opening models := by
  have hroot : opening.kind? [] = some .directory := by
    obtain ⟨entries, hhas⟩ := hasDirectory_of_makeDirectories hmade
    exact hhas.kind?_nil
  have hsorted : (opened out opening).entries.Sorted := sorted_listed out opening
  obtain ⟨found, hfound, hpaths⟩ := run_modelPaths opening input
  have hload : ∀ {paths}, found = .ok paths →
      ((loadInput input : StateM Machine _).run ⟨opening, []⟩).1 =
        ((loadAll paths : StateM Machine _).run ⟨opening, []⟩).1 := by
    rintro paths rfl
    rw [loadInput, Machine.run_bind, hfound]
  rw [run_runSession htask hmade]
  constructor
  · rintro ⟨paths, m₁, c₂, n, hfound', hmodels, c₁, hcache, hflush⟩
    obtain rfl : found = .ok paths := (Prod.mk.inj (hfound.symm.trans hfound')).1
    obtain ⟨models, c', ws, hloaded, hwrites, rfl⟩ :=
      (run_runModels rfl hsorted hroot (hpaths paths rfl)).mp hmodels
    obtain ⟨written, rfl, rfl, -⟩ := run_writeAll_ok hsorted hroot hwrites
    cases hcache
    exact ⟨models, ws, n, (hload rfl).trans hloaded,
      run_cachedRun (run_openAt_made hmade) hwrites hflush, (closing_eq ..).symm⟩
  · rintro ⟨models, ws, n, hloaded, hcached, rfl⟩
    obtain ⟨c, c₁, c₂, m₀, m₁, hopen, hwrites, hflush⟩ := run_cachedRun_ok hcached
    rw [run_openAt_made hmade] at hopen
    cases hopen
    obtain ⟨written, rfl, rfl, -⟩ := run_writeAll_ok hsorted hroot hwrites
    rcases found with e | paths
    · rw [loadInput, Machine.run_bind, hfound] at hloaded
      cases hloaded
    · refine ⟨paths, _, c₂, n, hfound, ?_, _, rfl, hflush⟩
      exact (run_runModels rfl hsorted hroot (hpaths paths rfl)).mpr
        ⟨models, _, ws, (hload rfl).symm.trans hloaded, hwrites, closing_eq ..⟩

end Sessions

end Command

end Bindable
