import Bindable.Generation
import Bindable.Proofs.Emission.BareUnit
import Bindable.Proofs.Emission.MemberTexts
import Bindable.Proofs.Emission.Sources
import Bindable.Proofs.Text.Identifiers

/-! The switch of the attribute that names the tool. As long as no name has a line break, a run with
the attribute differs from one without it in the attribute's own lines only. -/

namespace Bindable

/-- The names of types in an attribute and its arguments. -/
def Attribute.names (a : Attribute) : List String :=
  a.typeArguments.map (·.name) ++ a.arguments.flatMap (·.names) ++
    a.namedArguments.flatMap (·.value.names)

def Property.names (p : Property) : List String :=
  p.name :: p.type.name :: p.attributes.flatMap (·.names)

def Method.names (m : Method) : List String :=
  m.name :: m.returnType.toList.map (·.name) ++ m.parameters.map (·.type.name) ++
    m.attributes.flatMap (·.names)

def EnclosingType.names (e : EnclosingType) : List String := e.name :: e.typeParameters

/-- The names in a declaration: of its namespace, of itself, of the types around it and their type
parameters, of its members, and of all types that it refers to. -/
def TypeDeclaration.names (t : TypeDeclaration) : List String :=
  t.namespaceName.toList ++ t.enclosing.flatMap (·.names) ++ t.name :: t.typeParameters ++
    t.attributes.flatMap (·.names) ++ t.properties.flatMap (·.names) ++ t.methods.flatMap (·.names) ++
    t.enumMembers.map (·.name)

def Compilation.names (c : Compilation) : List String :=
  (c.externalTypes ++ c.types).flatMap (·.names)

section Names

theorem oneLine_of_isIdentifier {s : String} (h : Text.isIdentifier s) : OneLine s := by
  have hpart : Text.isIdentifierPart '\n' = false := by decide +kernel
  have hword : ∀ {cs}, Text.isWord cs → '\n' ∉ cs := by
    intro cs hcs hmem
    have hall := List.all_eq_true.mp (Text.all_of_isWord hcs) _ hmem
    rw [hpart] at hall
    contradiction
  rw [OneLine]
  rw [Text.isIdentifier, Text.isIdentifierChars.eq_def] at h
  split at h
  next cs hcs =>
    rw [hcs, List.mem_cons, not_or]
    exact ⟨by decide, hword h⟩
  next => exact hword h

namespace TypeDeclaration

variable {t : TypeDeclaration}

theorem oneLine_reference (h : ∀ s ∈ t.names, OneLine s) : OneLine t.reference.name := by
  simp only [names, List.forall_mem_append, List.forall_mem_cons, List.forall_mem_flatMap] at h
  obtain ⟨⟨⟨⟨⟨⟨hnamespace, henclosing⟩, hname, hparameters⟩, -⟩, -⟩, -⟩, -⟩ := h
  have hqualification : OneLine t.qualification := by
    rw [qualification]
    split
    next n hn =>
      have hmem : n ∈ t.namespaceName := (Option.filter_eq_some_iff.mp hn).1
      exact oneLine_append.mpr ⟨hnamespace n (Option.mem_toList.mpr hmem), by decide⟩
    next => decide
  have hlevels : ∀ s ∈ t.enclosing.map fun e => e.name ++ parameterList e.typeParameters ++ ".",
      OneLine s := by
    rw [List.forall_mem_map]
    intro e he
    obtain ⟨hlevel, htypeParameters⟩ := List.forall_mem_cons.mp (henclosing e he)
    simp only [oneLine_append, hlevel, oneLine_parameterList htypeParameters]
    decide
  simp only [reference, qualifiedName, oneLine_append, hqualification, oneLine_join hlevels, hname,
    oneLine_parameterList hparameters]
  decide

end TypeDeclaration

end Names

section Readings

variable {c : Compilation} {t : TypeDeclaration} {o : Occurrence} {base d : Descriptor} {a : Attribute}

theorem Descriptor.isOneLine_of_applyArguments (hbase : base.IsOneLine)
    (ha : ∀ s ∈ a.names, OneLine s)
    (hmembers : ∀ u ∈ c.externalTypes ++ c.types, ∀ m ∈ u.enumMembers, OneLine m.name)
    (h : (base.applyArguments c a.namedArguments).descriptor = some d) : d.IsOneLine := by
  obtain ⟨s, value, hs, rfl, hvalue⟩ := exists_of_applyArguments h
  refine ⟨hbase.name, hbase.propertyType, hbase.declaringType, hbase.host, fun e he => ?_⟩
  obtain rfl : value = some e := he
  rcases hvalue with ⟨hvalue, -⟩ | ⟨v, hv, -, e', he', hvalue⟩
  · exact hbase.defaultValue e hvalue.symm
  · obtain rfl := Option.some_inj.mp hvalue
    rw [hs, Settings.defaultValue_ofArguments] at hv
    obtain ⟨arg, harg, rfl⟩ := Option.map_eq_some_iff.mp hv
    have hmem : arg ∈ a.namedArguments := List.mem_reverse.mp (List.mem_of_find?_eq_some harg)
    simp only [Attribute.names, List.forall_mem_append, List.forall_mem_flatMap] at ha
    exact Compilation.isOneLine_convertDefault? (ha.2 arg hmem) hbase.propertyType hmembers he'

theorem Attribute.oneLine_markedTypes? {type : TypeReference} {host : Option TypeReference}
    (ha : ∀ s ∈ a.names, OneLine s) (h : a.markedTypes? = some (type, host)) :
    OneLine type.name ∧ ∀ t ∈ host, OneLine t.name := by
  have htypes : ∀ t ∈ a.typeArguments, OneLine t.name := fun t ht =>
    ha _ (List.mem_append_left _ (List.mem_append_left _ (List.mem_map_of_mem ht)))
  rw [markedTypes?] at h
  split at h
  next type' _ harguments =>
    obtain ⟨rfl, rfl⟩ : type' = type ∧ none = host := by simpa using h
    rw [harguments] at htypes
    exact ⟨htypes _ List.mem_cons_self, fun _ ht => absurd ht (Option.not_mem_none _)⟩
  next type' host' _ harguments =>
    obtain ⟨rfl, rfl⟩ : type' = type ∧ some host' = host := by simpa using h
    rw [harguments] at htypes
    refine ⟨htypes _ List.mem_cons_self, fun t ht => ?_⟩
    obtain rfl := Option.mem_some.mp ht
    exact htypes _ (List.mem_cons_of_mem _ List.mem_cons_self)
  next => cases h

/-- The descriptor of an accepted marker has its names from the declaration, its default perhaps from
an enum elsewhere. -/
theorem Compilation.isOneLine_of_read (ht : ∀ s ∈ t.names, OneLine s)
    (hmembers : ∀ u ∈ c.externalTypes ++ c.types, ∀ m ∈ u.enumMembers, OneLine m.name)
    (ho : o ∈ t.places) (h : (c.read t o).descriptor = some d) : d.IsOneLine := by
  have hreference := TypeDeclaration.oneLine_reference ht
  have hnone : ∀ e ∈ (none : Option Expr), e.IsOneLine := fun _ he => absurd he (Option.not_mem_none _)
  simp only [TypeDeclaration.names, List.forall_mem_append, List.forall_mem_flatMap] at ht
  obtain ⟨⟨⟨⟨-, hattributes⟩, hproperties⟩, hmethods⟩, -⟩ := ht
  simp only [TypeDeclaration.places, List.mem_append, List.mem_map, List.mem_flatMap] at ho
  obtain (⟨a, ha, rfl⟩ | ⟨p, hp, a, ha, rfl⟩) | ⟨m, hm, a, ha, rfl⟩ := ho
  · rw [read, readOnType] at h
    split at h
    next => cases h
    next type host htypes =>
      obtain ⟨htype, hhost⟩ := Attribute.oneLine_markedTypes? (hattributes a ha) htypes
      split at h
      next => cases h
      next name _ =>
        split at h
        next hid =>
          refine Descriptor.isOneLine_of_applyArguments ?_ (hattributes a ha) hmembers h
          exact ⟨oneLine_of_isIdentifier hid, htype, hreference, hhost, hnone⟩
        next => cases h
  · have hproperty := hproperties p hp
    simp only [Property.names, List.forall_mem_cons, List.forall_mem_flatMap] at hproperty
    obtain ⟨hname, htype, hattributes⟩ := hproperty
    rw [read, readOnProperty] at h
    split at h
    next =>
      refine Descriptor.isOneLine_of_applyArguments ?_ (hattributes a ha) hmembers h
      exact ⟨hname, htype, hreference, fun _ hhost => absurd hhost (Option.not_mem_none _), hnone⟩
    next => cases h
  · have hmethod := hmethods m hm
    simp only [Method.names, List.forall_mem_append, List.forall_mem_cons, List.forall_mem_map,
      List.forall_mem_flatMap] at hmethod
    obtain ⟨⟨⟨-, htype⟩, hparameters⟩, hattributes⟩ := hmethod
    rw [read, readOnMethod] at h
    split at h
    next =>
      split at h
      next name type host hname hreturn hhost =>
        have hid : OneLine name := oneLine_of_isIdentifier (Text.isIdentifier_of_attachedName? hname)
        rw [hreturn] at htype
        rw [hhost] at hparameters
        refine Descriptor.isOneLine_of_applyArguments ?_ (hattributes a ha) hmembers h
        refine ⟨hid, htype type (by simp), hreference, fun t ht => ?_, hnone⟩
        obtain rfl := Option.mem_some.mp ht
        exact hparameters host List.mem_cons_self
      next => cases h
    next => cases h

end Readings

section Units

variable {c : Compilation} {t : TypeDeclaration} {e : Entry} {d : Descriptor} {o : Options}

theorem Entry.oneLine_texts (ht : ∀ s ∈ e.type.names, OneLine s)
    (hd : ∀ d ∈ e.descriptors, d.IsOneLine) (hname : OneLine o.toolName)
    (hversion : OneLine o.toolVersion) : ∀ s ∈ (e.unit o).texts, OneLine s := by
  have hkeyword : ∀ k : TypeKind, OneLine k.keyword := by
    intro k
    cases k <;> decide
  simp only [TypeDeclaration.names, List.forall_mem_append, List.forall_mem_cons,
    List.forall_mem_flatMap] at ht
  obtain ⟨⟨⟨⟨⟨⟨hnamespace, henclosing⟩, htype, hparameters⟩, -⟩, -⟩, -⟩, -⟩ := ht
  simp only [SourceUnit.texts, unit, List.forall_mem_append, List.forall_mem_flatMap,
    List.forall_mem_map]
  refine ⟨⟨fun n hn => ?_, fun level hlevel => ?_, ?_⟩, fun d hmem m hm => ?_⟩
  · have hmem : n ∈ e.type.namespaceName :=
      (Option.filter_eq_some_iff.mp (Option.mem_toList.mp hn)).1
    exact hnamespace n (Option.mem_toList.mpr hmem)
  · exact List.forall_mem_cons.mpr ⟨hkeyword _, henclosing level hlevel⟩
  · exact List.forall_mem_singleton.mpr
      (List.forall_mem_cons.mpr ⟨hkeyword _, List.forall_mem_cons.mpr ⟨htype, hparameters⟩⟩)
  · exact (hd d hmem).texts_of_mem hname hversion hm

theorem Compilation.oneLine_unit (hc : ∀ s ∈ c.names, OneLine s) (he : e ∈ c.allEntries)
    (hname : OneLine o.toolName) (hversion : OneLine o.toolVersion) :
    ∀ s ∈ (e.unit o).texts, OneLine s := by
  obtain ⟨t, ht, he⟩ := List.mem_flatMap.mp he
  rw [Compilation.names, List.forall_mem_flatMap] at hc
  have htype : ∀ s ∈ t.names, OneLine s := hc t (List.mem_append_right _ ht)
  have hmembers : ∀ u ∈ c.externalTypes ++ c.types, ∀ m ∈ u.enumMembers, OneLine m.name := by
    intro u hu m hm
    exact hc u hu _ (List.mem_append_right _ (List.mem_map_of_mem hm))
  refine Entry.oneLine_texts (type_of_mem_entries he ▸ htype) (fun d hd => ?_) hname hversion
  obtain ⟨o, ho, hread⟩ := exists_read_of_mem_entries he hd
  exact isOneLine_of_read htype hmembers ho hread

end Units

def SourceFile.withoutLines (line : String) (f : SourceFile) : SourceFile :=
  .ofText f.hintName (Bindable.withoutLines line f.text)

/-- The units without those of their lines that are the given one. Their names and their order stay,
and so does what is reported. -/
def Output.withoutLines (line : String) (output : Output) : Output :=
  { output with sources := output.sources.map (·.withoutLines line) }

section Runs

variable {c : Compilation} {o : Options}

theorem firstByHint_map {f : SourceFile → SourceFile} (hf : ∀ s, (f s).hintName = s.hintName)
    (files : List SourceFile) : firstByHint (files.map f) = (firstByHint files).map f := by
  induction files with
  | nil => rfl
  | cons file rest ih =>
    rw [List.map_cons, firstByHint, firstByHint, ih, List.map_cons, List.filter_map]
    simp only [Function.comp_def, hf]

theorem Compilation.emit_withAttribute_false (hc : ∀ s ∈ c.names, OneLine s)
    (hname : OneLine o.toolName) (hversion : OneLine o.toolVersion) :
    c.emit (o.withAttribute false) = (c.emit (o.withAttribute true)).withoutLines o.toolLine := by
  have hfile : ∀ e ∈ c.allEntries, e.sourceFile? (o.withAttribute false) =
      (e.sourceFile? (o.withAttribute true)).map (·.withoutLines o.toolLine) := by
    intro e he
    have htext := Entry.withoutLines_render
      (oneLine_unit (o := o.withAttribute true) hc he hname hversion)
    rw [Entry.sourceFile?, Entry.sourceFile?]
    split
    · show some _ = some (SourceFile.ofText e.hintName (Bindable.withoutLines o.toolLine
        (e.unit (o.withAttribute true)).render))
      rw [htext]
    · rfl
  have hfiles : c.allEntries.filterMap (·.sourceFile? (o.withAttribute false)) =
      (c.allEntries.filterMap (·.sourceFile? (o.withAttribute true))).map
        (·.withoutLines o.toolLine) := by
    rw [List.map_filterMap]
    exact List.filterMap_congr hfile
  have hhint : ∀ f : SourceFile, (f.withoutLines o.toolLine).hintName = f.hintName := fun _ => rfl
  rw [emit, emit, Output.withoutLines, hfiles, firstByHint_map hhint]

/-- Without a line break in any name, deleting the lines that name the tool turns the outcome of a run
with the attribute into that of the run without it. -/
theorem Compilation.generateWith_withAttribute_false (hc : ∀ s ∈ c.names, OneLine s)
    (hname : OneLine o.toolName) (hversion : OneLine o.toolVersion) (cancelled : Bool) :
    c.generateWith (o.withAttribute false) cancelled =
      (c.generateWith (o.withAttribute true) cancelled).map (·.withoutLines o.toolLine) := by
  have hemit := emit_withAttribute_false hc hname hversion
  have hanalyzers : ∀ on, (o.withAttribute on).runAnalyzers = o.runAnalyzers := fun _ => rfl
  simp only [generateWith, runGenerator, runAnalyzers, hemit, hanalyzers, unlessCancelled]
  cases cancelled && !c.types.isEmpty with
  | true => rfl
  | false => cases o.runAnalyzers <;> rfl

/-- A property whose default breaks the line before a bracket. -/
def bracketLabel : Compilation :=
  { types := [{ (default : TypeDeclaration) with
      namespaceName := some "Demo", name := "Label", kind := .classType
      attributes := [{ (default : Attribute) with
        name := "BindableProperty", typeArguments := [.ofPrimitive .string]
        arguments := [.string "Text"]
        namedArguments := [⟨"DefaultValue", .string "a\n[b]"⟩] }] }] }

/-- Its unit has two lines that name the tool. -/
theorem generateWith_withAttribute_false_bracket :
    (∀ s ∈ bracketLabel.names, OneLine s) ∧ OneLine ({} : Options).toolName ∧
    OneLine ({} : Options).toolVersion ∧
    bracketLabel.allEntries.map (fun e => ((e.unit (({} : Options).withAttribute true)).lines.length,
      (e.unit (({} : Options).withAttribute false)).lines.length)) = [(32, 30)] ∧
    ∃ on off, bracketLabel.generateWith (({} : Options).withAttribute true) false = .ok on ∧
      bracketLabel.generateWith (({} : Options).withAttribute false) false = .ok off ∧
      on.sources.length = 1 ∧ off = on.withoutLines ({} : Options).toolLine := by
  have hnames : ∀ s ∈ bracketLabel.names, OneLine s := by decide +kernel
  have htool : OneLine ({} : Options).toolName ∧ OneLine ({} : Options).toolVersion := by decide
  have hrun := Compilation.generateWith_withAttribute_false hnames htool.1 htool.2 false
  refine ⟨hnames, htool.1, htool.2, ?_, _, _, rfl, hrun, ?_, rfl⟩
  · decide +kernel
  · decide +kernel

end Runs

end Bindable
