import Bindable.Emission.Members
import Bindable.Proofs.Conversion.DefaultTexts
import Bindable.Proofs.Source.UnitText

/-! The texts of generated members. Beside fixed words these are names from the descriptor, on their
own or with words around them, and the attribute that names the tool. -/

namespace Bindable

/-- None of the names in the descriptor has a line break. -/
structure Descriptor.IsOneLine (d : Descriptor) : Prop where
  name : OneLine d.name
  propertyType : OneLine d.propertyType.name
  declaringType : OneLine d.declaringType.name
  host : ∀ h ∈ d.host, OneLine h.name
  defaultValue : ∀ e ∈ d.defaultValue, e.IsOneLine

/-- The ways to name a member after its property. -/
def memberNames : List (String → String) :=
  [MemberName.field, MemberName.key, MemberName.changed, MemberName.changing, MemberName.validate,
    MemberName.coerce, MemberName.defaultValue, MemberName.getter, MemberName.setter]

theorem oneLine_memberName {property : String} (h : OneLine property) :
    ∀ name ∈ memberNames, OneLine (name property) := by
  have hwords : ∀ word ∈ ["Property", "PropertyKey", "On", "Changed", "Changing", "Validate", "Coerce",
      "Create", "DefaultValue", "Get", "Set"], OneLine word := by decide
  simp only [List.forall_mem_cons] at hwords
  simp only [memberNames, List.forall_mem_cons, MemberName.field, MemberName.key, MemberName.changed,
    MemberName.changing, MemberName.validate, MemberName.coerce, MemberName.defaultValue,
    MemberName.getter, MemberName.setter, oneLine_append, h, hwords, and_self, true_and]
  exact List.forall_mem_nil _

theorem Visibility.oneLine_modifiers (v : Visibility) : ∀ s ∈ v.modifiers, OneLine s := by
  cases v <;> decide

theorem Options.oneLine_memberAttributes {o : Options} (hname : OneLine o.toolName)
    (hversion : OneLine o.toolVersion) : ∀ s ∈ o.memberAttributes, OneLine s := by
  rw [memberAttributes]
  split
  · simp only [List.forall_mem_singleton, oneLine_append, hname, hversion]
    decide
  · exact List.forall_mem_nil _

namespace Expr

theorem isOneLine_call {target : Expr} {arguments : List (Option String × Expr)}
    (htarget : target.IsOneLine)
    (harguments : ∀ a ∈ arguments, (∀ name ∈ a.1, OneLine name) ∧ a.2.IsOneLine) :
    (call target arguments).IsOneLine := by
  refine List.forall_mem_append.mpr ⟨htarget, ?_⟩
  induction arguments with
  | nil => exact List.forall_mem_nil _
  | cons a rest ih =>
    obtain ⟨⟨hname, hvalue⟩, hrest⟩ := List.forall_mem_cons.mp harguments
    refine List.forall_mem_append.mpr ⟨List.forall_mem_append.mpr ⟨fun s hs => ?_, hvalue⟩, ih hrest⟩
    exact hname s (Option.mem_toList.mp hs)

/-- An argument without a name has the texts of its value only. -/
theorem isOneLine_positional {e : Expr} (h : e.IsOneLine) :
    (∀ name ∈ (positional e).1, OneLine name) ∧ (positional e).2.IsOneLine :=
  ⟨fun _ hname => absurd hname (Option.not_mem_none _), h⟩

theorem isOneLine_ident {name : String} (h : OneLine name) : (ident name).IsOneLine :=
  List.forall_mem_singleton.mpr h

theorem isOneLine_member {target : Expr} {name : String} (htarget : target.IsOneLine)
    (hname : OneLine name) : (member target name).IsOneLine :=
  List.forall_mem_append.mpr ⟨htarget, List.forall_mem_singleton.mpr hname⟩

theorem isOneLine_null : null.IsOneLine := List.forall_mem_nil _

end Expr

namespace Descriptor

variable {o : Options} {d : Descriptor} {m : Member}

theorem IsOneLine.defaultExpr (h : d.IsOneLine) : d.defaultExpr.IsOneLine := by
  rw [Descriptor.defaultExpr]
  split
  next e he => exact h.defaultValue e he
  next =>
    dsimp only
    split <;> split
    · exact Expr.isOneLine_null
    · exact List.forall_mem_singleton.mpr (TypeReference.oneLine_unannotated h.propertyType)
    · exact Expr.isOneLine_null
    · exact List.forall_mem_singleton.mpr (TypeReference.oneLine_unannotated h.propertyType)

/-- A callback forwards its parameters, each cast to the property's type. -/
theorem IsOneLine.callback (h : d.IsOneLine) {name : String → String} (hname : name ∈ memberNames)
    (params values : List String) (hwords : ∀ s ∈ params ++ values, OneLine s) :
    (Expr.lambda params (d.forward (name d.name) (values.map d.typedArgument))).IsOneLine := by
  obtain ⟨hparams, hvalues⟩ := List.forall_mem_append.mp hwords
  have hstub := oneLine_memberName h.name name hname
  have harguments : ∀ a ∈ values.map d.typedArgument,
      (∀ name ∈ a.1, OneLine name) ∧ a.2.IsOneLine := by
    rw [List.forall_mem_map]
    intro value hvalue
    refine Expr.isOneLine_positional ?_
    exact isOneLine_cast (TypeReference.oneLine_display h.propertyType)
      (Expr.isOneLine_ident (hvalues value hvalue))
  have hbindable : (Expr.ident "bindable").IsOneLine := Expr.isOneLine_ident (by decide)
  refine List.forall_mem_append.mpr ⟨hparams, ?_⟩
  rw [forward]
  split
  next =>
    have hobject := isOneLine_cast (TypeReference.oneLine_unannotated h.declaringType) hbindable
    exact Expr.isOneLine_call (Expr.isOneLine_member hobject hstub) harguments
  next host hhost =>
    have hobject := isOneLine_cast (TypeReference.oneLine_unannotated (h.host host hhost)) hbindable
    exact Expr.isOneLine_call (Expr.isOneLine_ident hstub)
      (List.forall_mem_cons.mpr ⟨Expr.isOneLine_positional hobject, harguments⟩)

theorem isOneLine_modeExpr (mode : DefaultMode) : mode.expr.IsOneLine := by
  cases mode with
  | known mode =>
    refine Expr.isOneLine_member (Expr.isOneLine_ident (by decide)) ?_
    cases mode <;> decide
  | raw n => exact isOneLine_cast (by decide) (List.forall_mem_nil _)

theorem IsOneLine.createCall (h : d.IsOneLine) : d.createCall.IsOneLine := by
  have htarget : (Expr.member (.ident Framework.bindableProperty) d.createMethod).IsOneLine := by
    refine Expr.isOneLine_member (Expr.isOneLine_ident (by decide)) ?_
    rw [createMethod]
    split <;> decide
  have hwhen : ∀ (b : Bool) {e : Expr}, e.IsOneLine → (if b then e else .null).IsOneLine := by
    intro b e he
    cases b with
    | false => exact Expr.isOneLine_null
    | true => exact he
  have hchange : ∀ name ∈ memberNames, (d.changeCallback (name d.name)).IsOneLine := fun name hname =>
    h.callback hname ["bindable", "oldValue", "newValue"] ["oldValue", "newValue"] (by decide)
  have hvalue : ∀ name ∈ memberNames, (d.valueCallback (name d.name)).IsOneLine := fun name hname =>
    h.callback hname ["bindable", "value"] ["value"] (by decide)
  have hfactory : (d.factoryCallback (MemberName.defaultValue d.name)).IsOneLine :=
    h.callback (by simp [memberNames] : MemberName.defaultValue ∈ memberNames) ["bindable"] []
      (by decide)
  have hnames : ∀ a ∈ d.createArguments, ∀ name ∈ a.1, OneLine name := by
    simp only [createArguments, Expr.named, List.forall_mem_cons, Option.mem_some, forall_eq',
      List.not_mem_nil, false_imp_iff, implies_true, and_true]
    decide
  have hvalues : ∀ a ∈ d.createArguments, a.2.IsOneLine := by
    simp only [createArguments, Expr.named, List.forall_mem_cons, List.not_mem_nil, false_imp_iff,
      implies_true, and_true]
    exact ⟨List.forall_mem_nil _,
      List.forall_mem_singleton.mpr (TypeReference.oneLine_displayAsOperand h.propertyType),
      List.forall_mem_singleton.mpr (TypeReference.oneLine_displayAsOperand h.declaringType),
      h.defaultExpr, isOneLine_modeExpr d.defaultMode,
      hwhen _ (hvalue MemberName.validate (by simp [memberNames])),
      hchange MemberName.changed (by simp [memberNames]),
      hchange MemberName.changing (by simp [memberNames]),
      hwhen _ (hvalue MemberName.coerce (by simp [memberNames])), hwhen _ hfactory⟩
  exact Expr.isOneLine_call htarget fun a ha => ⟨hnames a ha, hvalues a ha⟩

theorem oneLine_staticField (hattributes : ∀ s ∈ o.memberAttributes, OneLine s) (v : Visibility)
    {type name : String} {e : Expr} (htype : OneLine type) (hname : OneLine name)
    (he : e.IsOneLine) : ∀ s ∈ (staticField o v type name e).texts, OneLine s := by
  have hwords : ∀ s ∈ ["static", "readonly"], OneLine s := by decide
  simp only [staticField, Member.texts, FieldMember.texts, List.forall_mem_append]
  refine ⟨⟨⟨hattributes, v.oneLine_modifiers, hwords⟩, ?_⟩, he⟩
  exact List.forall_mem_cons.mpr ⟨htype, List.forall_mem_singleton.mpr hname⟩

theorem oneLine_keyFields (h : d.IsOneLine) (hattributes : ∀ s ∈ o.memberAttributes, OneLine s)
    (hm : m ∈ d.keyFields o) : ∀ s ∈ m.texts, OneLine s := by
  have hfield := oneLine_memberName h.name MemberName.field (by simp [memberNames])
  have hkey := oneLine_memberName h.name MemberName.key (by simp [memberNames])
  rw [keyFields] at hm
  cases hshape : d.shape <;> simp only [hshape, List.mem_cons, List.not_mem_nil, or_false] at hm
  · rw [hm]
    exact oneLine_staticField hattributes _ (by decide) hfield h.createCall
  · rcases hm with rfl | rfl
    · exact oneLine_staticField hattributes _ (by decide) hkey h.createCall
    · exact oneLine_staticField hattributes _ (by decide) hfield
        (Expr.isOneLine_member (Expr.isOneLine_ident hkey) (by decide))

theorem oneLine_method {f : MethodMember} (hattributes : ∀ s ∈ f.attributes, OneLine s)
    (hmodifiers : ∀ s ∈ f.modifiers, OneLine s) (htype : OneLine f.returnType) (hname : OneLine f.name)
    (hparameters : ∀ p ∈ f.parameters, OneLine p.type ∧ OneLine p.name)
    (hbody : ∀ e ∈ f.body, e.IsOneLine) : ∀ s ∈ (Member.method f).texts, OneLine s := by
  simp only [Member.texts, MethodMember.texts, List.forall_mem_append, List.forall_mem_flatMap]
  refine ⟨⟨⟨⟨hattributes, hmodifiers⟩, ?_⟩, fun p hp => ?_⟩, fun e he => ?_⟩
  · exact List.forall_mem_cons.mpr ⟨htype, List.forall_mem_singleton.mpr hname⟩
  · obtain ⟨htype, hname⟩ := hparameters p hp
    exact List.forall_mem_cons.mpr ⟨htype, List.forall_mem_singleton.mpr hname⟩
  · exact hbody e (Option.mem_toList.mp he)

theorem oneLine_writeHandle (h : d.IsOneLine) : OneLine d.writeHandle := by
  rw [writeHandle]
  split
  · exact oneLine_memberName h.name MemberName.field (by simp [memberNames])
  · exact oneLine_memberName h.name MemberName.key (by simp [memberNames])

theorem IsOneLine.readValue (h : d.IsOneLine) {target : Expr} (htarget : target.IsOneLine) :
    (Expr.cast d.propertyType.display
      (.call target [Expr.positional (.ident (MemberName.field d.name))])).IsOneLine := by
  have hfield := oneLine_memberName h.name MemberName.field (by simp [memberNames])
  exact isOneLine_cast (TypeReference.oneLine_display h.propertyType) (Expr.isOneLine_call htarget
    (List.forall_mem_singleton.mpr (Expr.isOneLine_positional (Expr.isOneLine_ident hfield))))

theorem IsOneLine.writeValue (h : d.IsOneLine) {target : Expr} (htarget : target.IsOneLine) :
    (Expr.call target [Expr.positional (.ident d.writeHandle),
      Expr.positional (.ident "value")]).IsOneLine := by
  have hhandle := Expr.isOneLine_positional (Expr.isOneLine_ident (oneLine_writeHandle h))
  have hvalue : OneLine "value" := by decide
  exact Expr.isOneLine_call htarget (List.forall_mem_cons.mpr ⟨hhandle,
    List.forall_mem_singleton.mpr (Expr.isOneLine_positional (Expr.isOneLine_ident hvalue))⟩)

theorem oneLine_instanceAccessor (h : d.IsOneLine)
    (hattributes : ∀ s ∈ o.memberAttributes, OneLine s) :
    ∀ s ∈ (d.instanceAccessor o).texts, OneLine s := by
  have hlevel : ∀ v : Option Visibility, ∀ s ∈ accessorModifiers v, OneLine s := by
    intro v
    cases v with
    | none => exact List.forall_mem_nil _
    | some v => exact v.oneLine_modifiers
  have htype := TypeReference.oneLine_display h.propertyType
  have hget : (Expr.ident "GetValue").IsOneLine := Expr.isOneLine_ident (by decide)
  have hset : (Expr.ident "SetValue").IsOneLine := Expr.isOneLine_ident (by decide)
  simp only [instanceAccessor, Member.texts, PropertyMember.texts, AccessorBody.texts,
    Option.toList_some, List.flatMap_singleton, List.forall_mem_append]
  refine ⟨⟨⟨⟨hattributes, Visibility.oneLine_modifiers _⟩, ?_⟩, hlevel _, h.readValue hget⟩, hlevel _,
    h.writeValue hset⟩
  exact List.forall_mem_cons.mpr ⟨htype, List.forall_mem_singleton.mpr h.name⟩

theorem oneLine_attachedAccessors (h : d.IsOneLine) {host : TypeReference}
    (hhost : OneLine host.name) (hattributes : ∀ s ∈ o.memberAttributes, OneLine s)
    (hm : m ∈ d.attachedAccessors o host) : ∀ s ∈ m.texts, OneLine s := by
  have hmodifiers : ∀ v : Visibility, ∀ s ∈ v.modifiers ++ ["static"], OneLine s := fun v =>
    List.forall_mem_append.mpr ⟨v.oneLine_modifiers, by decide⟩
  have htype := TypeReference.oneLine_display h.propertyType
  have hwords : OneLine "void" ∧ OneLine "view" ∧ OneLine "value" := by decide
  have hview : OneLine host.display ∧ OneLine "view" :=
    ⟨TypeReference.oneLine_display hhost, hwords.2.1⟩
  have htarget : ∀ {method}, OneLine method → (Expr.member (.ident "view") method).IsOneLine :=
    fun hmethod => Expr.isOneLine_member (Expr.isOneLine_ident (by decide)) hmethod
  rw [attachedAccessors] at hm
  obtain rfl | hm := List.mem_cons.mp hm
  · refine oneLine_method hattributes (hmodifiers _) htype
      (oneLine_memberName h.name MemberName.getter (by simp [memberNames]))
      (List.forall_mem_singleton.mpr hview) fun e he => ?_
    obtain rfl := Option.mem_some.mp he
    exact h.readValue (htarget (by decide))
  · rw [List.mem_singleton.mp hm]
    refine oneLine_method hattributes (hmodifiers _) hwords.1
      (oneLine_memberName h.name MemberName.setter (by simp [memberNames]))
      (List.forall_mem_cons.mpr ⟨hview, List.forall_mem_singleton.mpr ⟨htype, hwords.2.2⟩⟩)
      fun e he => ?_
    obtain rfl := Option.mem_some.mp he
    exact h.writeValue (htarget (by decide))

theorem oneLine_accessors (h : d.IsOneLine) (hattributes : ∀ s ∈ o.memberAttributes, OneLine s)
    (hm : m ∈ d.accessors o) : ∀ s ∈ m.texts, OneLine s := by
  rw [accessors] at hm
  split at hm
  next => exact absurd hm List.not_mem_nil
  next => exact List.mem_singleton.mp hm ▸ oneLine_instanceAccessor h hattributes
  next host _ hhost => exact oneLine_attachedAccessors h (h.host host hhost) hattributes hm

theorem oneLine_stubs (h : d.IsOneLine) (hm : m ∈ d.stubs) : ∀ s ∈ m.texts, OneLine s := by
  have htype := TypeReference.oneLine_display h.propertyType
  have hwords : OneLine "view" ∧ OneLine "value" ∧ OneLine "oldValue" ∧ OneLine "newValue" ∧
      OneLine "void" ∧ OneLine "bool" ∧ OneLine "private" := by decide
  obtain ⟨hview, hvalue, hold, hnew, hvoid, hbool, hprivate⟩ := hwords
  have hparameters : ∀ {names : List String}, (∀ x ∈ names, OneLine x) →
      ∀ p ∈ (d.host.map fun t => ({ type := t.display, name := "view" } : MethodParameter)).toList ++
        names.map fun x => { type := d.propertyType.display, name := x },
      OneLine p.type ∧ OneLine p.name := by
    intro names hnames
    refine List.forall_mem_append.mpr ⟨fun p hp => ?_, List.forall_mem_map.mpr fun x hx => ?_⟩
    · obtain ⟨t, ht, rfl⟩ := Option.map_eq_some_iff.mp (Option.mem_toList.mp hp)
      exact ⟨TypeReference.oneLine_display (h.host t ht), hview⟩
    · exact ⟨htype, hnames x hx⟩
  have hstub : ∀ {modifiers returnType parameters}, ∀ name ∈ memberNames,
      (∀ s ∈ modifiers, OneLine s) → OneLine returnType →
      (∀ p ∈ parameters, OneLine p.type ∧ OneLine p.name) →
      ∀ s ∈ (stub modifiers returnType (name d.name) parameters).texts, OneLine s :=
    fun name hname hmodifiers hreturn hparameters =>
      oneLine_method (List.forall_mem_nil _) hmodifiers hreturn
        (oneLine_memberName h.name name hname) hparameters
        fun _ he => absurd he (Option.not_mem_none _)
  have hscope : ∀ s ∈ if d.isAttached then ["static", "partial"] else ["partial"], OneLine s := by
    split <;> decide
  have hscope' := List.forall_mem_cons.mpr ⟨hprivate, hscope⟩
  have hchange := hparameters (List.forall_mem_cons.mpr ⟨hold, List.forall_mem_singleton.mpr hnew⟩)
  have hvalue := hparameters (List.forall_mem_singleton.mpr hvalue)
  simp only [stubs, List.mem_append, List.mem_cons, List.not_mem_nil, or_false,
    List.mem_ite_nil_right] at hm
  obtain (((rfl | rfl) | ⟨-, rfl⟩) | ⟨-, rfl⟩) | ⟨-, rfl⟩ := hm
  · exact hstub MemberName.changed (by simp [memberNames]) hscope hvoid hchange
  · exact hstub MemberName.changing (by simp [memberNames]) hscope hvoid hchange
  · exact hstub MemberName.validate (by simp [memberNames]) hscope' hbool hvalue
  · exact hstub MemberName.coerce (by simp [memberNames]) hscope' htype hvalue
  · refine hstub MemberName.defaultValue (by simp [memberNames]) hscope' htype fun p hp => ?_
    exact hparameters (List.forall_mem_nil _) p (List.mem_append_left _ hp)

/-- No text of a generated member has a line break that is not in a name of the descriptor. -/
theorem IsOneLine.texts_of_mem (h : d.IsOneLine) (hname : OneLine o.toolName)
    (hversion : OneLine o.toolVersion) (hm : m ∈ d.members o) : ∀ s ∈ m.texts, OneLine s := by
  have hattributes := Options.oneLine_memberAttributes hname hversion
  rw [members, List.mem_append, List.mem_append] at hm
  obtain (hm | hm) | hm := hm
  · exact oneLine_keyFields h hattributes hm
  · exact oneLine_accessors h hattributes hm
  · exact oneLine_stubs h hm

end Descriptor

end Bindable
