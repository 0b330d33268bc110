import Bindable.Emission.Entry
import Bindable.Proofs.Emission.ToolLine
import Bindable.Proofs.Source.UnitText

/-! How generated lines start. A line other than an attribute's starts with a word that tells what it
is for. Only the call that creates a property has a line for the property's name and one for the type
that declares it, so that these two lines show where the property is created. -/

namespace Bindable

/-- The text starts with one of the words. -/
def OpensWith (starts : List String) (s : String) : Prop := ∃ w ∈ starts, w.toList <+: s.toList

def signStarts : List String := ["propertyName: ", "declaringType: "]

/-- What generated lines start with that are neither signs nor attributes. -/
def plainStarts : List String :=
  ["// ", "#nullable ", "namespace ", "partial", "\x7b", "\x7d", "public", "protected", "internal",
    "private", "static", "get ", "set ", "returnType: ", "defaultValue: ", "defaultBindingMode: ",
    "validateValue: ", "propertyChanged: ", "propertyChanging: ", "coerceValue: ",
    "defaultValueCreator: "]

/-- The line tells the name of a property or the type that declares it. -/
def Line.isSign (l : Line) : Bool := signStarts.any fun w => w.toList.isPrefixOf l.text.toList

namespace Descriptor

/-- The argument that names the property. -/
def nameText (d : Descriptor) : String := "propertyName: " ++ (Literal.string d.name).render ++ ","

def declaringText (d : Descriptor) : String :=
  "declaringType: " ++ (Expr.typeOf d.declaringType.displayAsOperand).render ++ ","

def signs (d : Descriptor) (depth : Nat) : List Line :=
  [{ depth, text := d.nameText }, { depth, text := d.declaringText }]

end Descriptor

section Openings

variable {starts : List String} {s t : String} {l : Line}

theorem opensWith_of_mem (h : s ∈ starts) : OpensWith starts s := ⟨s, h, List.prefix_rfl⟩

theorem OpensWith.append (h : OpensWith starts s) : OpensWith starts (s ++ t) := by
  obtain ⟨w, hw, hs⟩ := h
  refine ⟨w, hw, hs.trans ?_⟩
  rw [String.toList_append]
  exact List.prefix_append _ _

theorem OpensWith.mono {starts' : List String} (h : OpensWith starts s) (hsub : starts ⊆ starts') :
    OpensWith starts' s := by
  obtain ⟨w, hw, hs⟩ := h
  exact ⟨w, hsub hw, hs⟩

theorem opensWith_words {ws : List String} (h : OpensWith starts s) :
    OpensWith starts (words (s :: ws)) := by
  rw [words]
  cases ws with
  | nil => rwa [String.intercalate_singleton]
  | cons w ws =>
    rw [String.intercalate_cons_cons]
    exact h.append.append

theorem opensWith_modifiers (v : Visibility) (ws : List String) :
    OpensWith plainStarts (words (v.modifiers ++ ws)) := by
  cases v <;> exact opensWith_words (opensWith_of_mem (by decide))

theorem Line.isSign_iff : l.isSign ↔ OpensWith signStarts l.text := by
  simp [isSign, OpensWith, List.isPrefixOf_iff_prefix]

/-- No sign starts like another line. -/
theorem Line.isSign_eq_false (h : OpensWith plainStarts l.text) : l.isSign = false := by
  have hapart : ∀ v ∈ signStarts, ∀ w ∈ plainStarts,
      ¬ v.toList <+: w.toList ∧ ¬ w.toList <+: v.toList := by
    decide
  rw [← Bool.not_eq_true, isSign_iff]
  rintro ⟨v, hv, hsign⟩
  obtain ⟨w, hw, hplain⟩ := h
  obtain ⟨hvw, hwv⟩ := hapart v hv w hw
  exact (List.prefix_or_prefix_of_prefix hsign hplain).elim hvw hwv

end Openings

section Members

variable {starts : List String} {depth : Nat}

theorem opensWith_argumentLines {arguments : List String}
    (h : ∀ a ∈ arguments, OpensWith starts a) :
    ∀ l ∈ argumentLines depth arguments, OpensWith starts l.text := by
  induction arguments with
  | nil => simp [argumentLines]
  | cons a rest ih =>
    obtain ⟨ha, hrest⟩ := List.forall_mem_cons.mp h
    cases rest with
    | nil => exact List.forall_mem_singleton.mpr ha.append
    | cons a' rest =>
      rw [argumentLines_cons_cons]
      exact List.forall_mem_cons.mpr ⟨ha.append, ih hrest⟩

/-- An argument with a name starts with it. -/
theorem opensWith_renderArguments {arguments : List (Option String × Expr)}
    (h : ∀ a ∈ arguments, ∃ name, a.1 = some name ∧ name ++ ": " ∈ starts) :
    ∀ a ∈ Expr.renderArguments arguments, OpensWith starts a := by
  induction arguments with
  | nil => simp [Expr.renderArguments]
  | cons a rest ih =>
    obtain ⟨⟨name, hname, hmem⟩, hrest⟩ := List.forall_mem_cons.mp h
    obtain ⟨_, value⟩ := a
    obtain rfl := hname
    rw [Expr.renderArguments]
    exact List.forall_mem_cons.mpr ⟨(opensWith_of_mem hmem).append, ih hrest⟩

/-- The lines of the arguments, if they have lines of their own. -/
def FieldMember.callLines (depth : Nat) (f : FieldMember) : List Line :=
  match f.initializer with
  | .call _ arguments =>
    if arguments.any fun a => a.1.isSome then
      argumentLines (depth + 1) (Expr.renderArguments arguments)
    else []
  | _ => []

theorem FieldMember.exists_lines_eq (f : FieldMember) (depth : Nat) :
    ∃ text, (Member.field f).bare.lines depth =
      { depth, text := f.head ++ text } :: f.callLines depth := by
  obtain ⟨attributes, modifiers, type, name, initializer⟩ := f
  show ∃ text, FieldMember.lines depth { attributes := [], modifiers, type, name, initializer } = _
  cases initializer with
  | call target arguments =>
    rw [lines, callLines]
    dsimp only
    split
    · exact ⟨target.renderPrimary ++ "(", by rw [← String.append_assoc]; rfl⟩
    · exact ⟨(Expr.call target arguments).render ++ ";", by rw [← String.append_assoc]; rfl⟩
  | _ => exact ⟨Expr.render _ ++ ";", by rw [← String.append_assoc]; rfl⟩

theorem FieldMember.opensWith_head {f : FieldMember} (hwords : OpensWith starts (words f.modifiers))
    (t : String) : OpensWith starts (f.head ++ t) := by
  simp only [head, String.append_assoc]
  exact hwords.append

theorem FieldMember.opensWith_lines {f : FieldMember} (hwords : OpensWith starts (words f.modifiers))
    (hcall : ∀ l ∈ f.callLines depth, OpensWith starts l.text) :
    ∀ l ∈ (Member.field f).bare.lines depth, OpensWith starts l.text := by
  obtain ⟨text, hlines⟩ := f.exists_lines_eq depth
  rw [hlines, List.forall_mem_cons]
  exact ⟨opensWith_head hwords text, hcall⟩

theorem AccessorBody.opensWith_line {a : AccessorBody} {keyword : String}
    (hwords : words a.modifiers = "" ∨ OpensWith starts (words a.modifiers))
    (hkeyword : OpensWith starts (keyword ++ " => ")) :
    OpensWith starts (a.line depth keyword).text := by
  rw [line]
  split
  next hempty =>
    rw [String.empty_append, String.append_assoc]
    exact hkeyword.append
  next hne =>
    simp only [String.append_assoc]
    exact (hwords.resolve_left hne).append

theorem PropertyMember.opensWith_lines {p : PropertyMember}
    (hwords : OpensWith plainStarts (words p.modifiers))
    (haccessors : ∀ a ∈ p.getter :: p.setter.toList,
      words a.modifiers = "" ∨ OpensWith plainStarts (words a.modifiers)) :
    ∀ l ∈ (Member.property p).bare.lines depth, OpensWith plainStarts l.text := by
  obtain ⟨hgetter, hsetter⟩ := List.forall_mem_cons.mp haccessors
  have hbraces : OpensWith plainStarts "\x7b" ∧ OpensWith plainStarts "\x7d" :=
    ⟨opensWith_of_mem (by decide), opensWith_of_mem (by decide)⟩
  have hkeywords :
      OpensWith plainStarts ("get" ++ " => ") ∧ OpensWith plainStarts ("set" ++ " => ") :=
    ⟨⟨"get ", by decide⟩, ⟨"set ", by decide⟩⟩
  show ∀ l ∈ PropertyMember.lines depth { p with attributes := [] }, OpensWith plainStarts l.text
  simp only [lines, List.forall_mem_append]
  refine ⟨⟨⟨⟨by simp [attributeLines], ?_⟩, ?_⟩, ?_⟩, ?_⟩
  · refine List.forall_mem_cons.mpr ⟨?_, List.forall_mem_singleton.mpr hbraces.1⟩
    simp only [String.append_assoc]
    exact hwords.append
  · exact List.forall_mem_singleton.mpr (AccessorBody.opensWith_line hgetter hkeywords.1)
  · intro l hl
    obtain ⟨setter, hs, rfl⟩ := Option.map_eq_some_iff.mp (Option.mem_toList.mp hl)
    exact AccessorBody.opensWith_line (hsetter setter (Option.mem_toList.mpr hs)) hkeywords.2
  · exact List.forall_mem_singleton.mpr hbraces.2

theorem MethodMember.opensWith_lines {m : MethodMember}
    (hwords : OpensWith starts (words m.modifiers)) :
    ∀ l ∈ (Member.method m).bare.lines depth, OpensWith starts l.text := by
  have hsignature : ∀ t, OpensWith starts (m.signature ++ t) := by
    intro t
    rw [signature]
    simp only [String.append_assoc]
    exact hwords.append
  show ∀ l ∈ MethodMember.lines depth { m with attributes := [] }, OpensWith starts l.text
  rw [lines]
  split
  · refine List.forall_mem_singleton.mpr ?_
    rw [String.append_assoc, String.append_assoc]
    exact hsignature _
  · exact List.forall_mem_singleton.mpr (hsignature _)

end Members

namespace Descriptor

variable {o : Options} {d : Descriptor} {m : Member} {depth : Nat}

theorem opensWith_accessors (hm : m ∈ d.accessors o) :
    ∀ l ∈ m.bare.lines depth, OpensWith plainStarts l.text := by
  have hlevel : ∀ v : Visibility, OpensWith plainStarts (words v.modifiers) := by
    intro v
    simpa using opensWith_modifiers v []
  have haccessor : ∀ v : Option Visibility, words (accessorModifiers v) = "" ∨
      OpensWith plainStarts (words (accessorModifiers v)) := by
    intro v
    cases v with
    | none => exact .inl rfl
    | some v => exact .inr (hlevel v)
  rw [accessors] at hm
  split at hm
  · exact absurd hm List.not_mem_nil
  · rw [List.mem_singleton.mp hm]
    refine PropertyMember.opensWith_lines (hlevel _) ?_
    exact List.forall_mem_cons.mpr ⟨haccessor _, List.forall_mem_singleton.mpr (haccessor _)⟩
  · rw [attachedAccessors] at hm
    obtain rfl | hm := List.mem_cons.mp hm
    · exact MethodMember.opensWith_lines (opensWith_modifiers _ _)
    · rw [List.mem_singleton.mp hm]
      exact MethodMember.opensWith_lines (opensWith_modifiers _ _)

theorem opensWith_stubs (hm : m ∈ d.stubs) :
    ∀ l ∈ m.bare.lines depth, OpensWith plainStarts l.text := by
  have hstub : ∀ {modifiers} returnType name parameters, OpensWith plainStarts (words modifiers) →
      ∀ l ∈ (stub modifiers returnType name parameters).bare.lines depth,
        OpensWith plainStarts l.text :=
    fun _ _ _ hwords => MethodMember.opensWith_lines hwords
  have hscope : OpensWith plainStarts
      (words (if d.isAttached then ["static", "partial"] else ["partial"])) := by
    split <;> exact opensWith_words (opensWith_of_mem (by decide))
  have hprivate : ∀ ws, OpensWith plainStarts (words ("private" :: ws)) := fun ws =>
    opensWith_words (opensWith_of_mem (by decide))
  simp only [stubs, List.mem_append, List.mem_cons, List.not_mem_nil, or_false,
    List.mem_ite_nil_right] at hm
  obtain (((rfl | rfl) | ⟨-, rfl⟩) | ⟨-, rfl⟩) | ⟨-, rfl⟩ := hm
  · exact hstub _ _ _ hscope
  · exact hstub _ _ _ hscope
  · exact hstub _ _ _ (hprivate _)
  · exact hstub _ _ _ (hprivate _)
  · exact hstub _ _ _ (hprivate _)

/-- The first member is the field with the call that creates the property. -/
theorem exists_members_eq (o : Options) (d : Descriptor) :
    ∃ f others, d.members o = .field f :: others ∧ f.initializer = d.createCall ∧
      OpensWith plainStarts (words f.modifiers) ∧
      ∀ m ∈ others, ∀ depth, ∀ l ∈ m.bare.lines depth, OpensWith plainStarts l.text := by
  have hothers : ∀ m ∈ d.accessors o ++ d.stubs, ∀ depth, ∀ l ∈ m.bare.lines depth,
      OpensWith plainStarts l.text := by
    intro m hm depth
    exact (List.mem_append.mp hm).elim opensWith_accessors opensWith_stubs
  rw [members, List.append_assoc, keyFields]
  cases d.shape with
  | writable => exact ⟨_, _, rfl, rfl, opensWith_modifiers _ _, hothers⟩
  | readOnly =>
    refine ⟨_, _, rfl, rfl, opensWith_modifiers _ _, List.forall_mem_cons.mpr ⟨?_, hothers⟩⟩
    exact fun depth => FieldMember.opensWith_lines (opensWith_modifiers _ _) (List.forall_mem_nil _)

theorem opensWith_nameText (d : Descriptor) : OpensWith signStarts d.nameText := by
  have hname : OpensWith signStarts "propertyName: " := opensWith_of_mem (by decide)
  unfold nameText
  exact hname.append.append

theorem opensWith_declaringText (d : Descriptor) : OpensWith signStarts d.declaringText := by
  have htype : OpensWith signStarts "declaringType: " := opensWith_of_mem (by decide)
  unfold declaringText
  exact htype.append.append

theorem opensWith_signs (d : Descriptor) (depth : Nat) :
    ∀ l ∈ d.signs depth, OpensWith signStarts l.text := by
  rw [signs, List.forall_mem_cons, List.forall_mem_singleton]
  exact ⟨d.opensWith_nameText, d.opensWith_declaringText⟩

/-- The arguments after the first three. -/
theorem opensWith_moreArguments (d : Descriptor) :
    ∀ a ∈ d.createArguments.drop 3, ∃ name, a.1 = some name ∧ name ++ ": " ∈ plainStarts := by
  simp only [createArguments, List.drop_succ_cons, List.drop_zero, List.forall_mem_cons]
  exact ⟨⟨_, rfl, by decide⟩, ⟨_, rfl, by decide⟩, ⟨_, rfl, by decide⟩, ⟨_, rfl, by decide⟩,
    ⟨_, rfl, by decide⟩, ⟨_, rfl, by decide⟩, ⟨_, rfl, by decide⟩, List.forall_mem_nil _⟩

/-- Of the lines of the creating call the first and the third are signs. -/
theorem exists_createLines_eq (d : Descriptor) (depth : Nat) :
    ∃ name type declaring rest,
      argumentLines depth (Expr.renderArguments d.createArguments) =
        name :: type :: declaring :: rest ∧
      [name, declaring] = d.signs depth ∧ ∀ l ∈ type :: rest, OpensWith plainStarts l.text := by
  have hthree : d.createArguments = (some "propertyName", .literal (.string d.name)) ::
      (some "returnType", .typeOf d.propertyType.displayAsOperand) ::
      (some "declaringType", .typeOf d.declaringType.displayAsOperand) ::
      d.createArguments.drop 3 := rfl
  obtain ⟨next, others, hmore⟩ : ∃ next others,
      Expr.renderArguments (d.createArguments.drop 3) = next :: others := ⟨_, _, rfl⟩
  have hopens := opensWith_renderArguments d.opensWith_moreArguments
  have hreturn : OpensWith plainStarts ("returnType" ++ ": ") := opensWith_of_mem (by decide)
  have hname : "propertyName" ++ ": " = "propertyName: " := rfl
  have htype : "declaringType" ++ ": " = "declaringType: " := rfl
  rw [hmore] at hopens
  rw [hthree, Expr.renderArguments, Expr.renderArguments, Expr.renderArguments, hmore, hname, htype,
    argumentLines_cons_cons, argumentLines_cons_cons, argumentLines_cons_cons]
  exact ⟨_, _, _, _, rfl, rfl, List.forall_mem_cons.mpr
    ⟨hreturn.append.append, opensWith_argumentLines hopens⟩⟩

theorem callLines_eq {f : FieldMember} (h : f.initializer = d.createCall) (depth : Nat) :
    f.callLines depth = argumentLines (depth + 1) (Expr.renderArguments d.createArguments) := by
  rw [FieldMember.callLines, h]
  rfl

theorem opensWith_lines_of_mem (hm : m ∈ d.members o) :
    ∀ l ∈ m.bare.lines depth, OpensWith (signStarts ++ plainStarts) l.text := by
  obtain ⟨f, others, hmembers, hcall, hwords, hothers⟩ := d.exists_members_eq o
  have hplain : plainStarts ⊆ signStarts ++ plainStarts := List.subset_append_right _ _
  rw [hmembers] at hm
  rcases List.mem_cons.mp hm with rfl | hm
  · obtain ⟨name, type, declaring, rest, hlines, hsigns, hrest⟩ :=
      d.exists_createLines_eq (depth + 1)
    have hopens := d.opensWith_signs (depth + 1)
    rw [← hsigns] at hopens
    refine FieldMember.opensWith_lines (hwords.mono hplain) fun l hl => ?_
    rw [callLines_eq hcall, hlines] at hl
    simp only [List.mem_cons] at hl hopens hrest
    rcases hl with rfl | rfl | rfl | hl
    · exact (hopens _ (.inl rfl)).mono (List.subset_append_left _ _)
    · exact (hrest _ (.inl rfl)).mono hplain
    · exact (hopens _ (.inr (.inl rfl))).mono (List.subset_append_left _ _)
    · exact (hrest _ (.inr hl)).mono hplain
  · exact fun l hl => (hothers m hm depth l hl).mono hplain

end Descriptor

theorem SourceUnit.opensWith_headers (u : SourceUnit) :
    ∀ header ∈ u.headers, OpensWith plainStarts header := by
  rw [headers, List.forall_mem_append, List.forall_mem_map]
  refine ⟨fun header hheader => ?_, fun w _ => ?_⟩
  · obtain ⟨name, -, rfl⟩ := Option.map_eq_some_iff.mp (Option.mem_toList.mp hheader)
    exact (opensWith_of_mem (by decide)).append
  · have hpartial : "partial" ++ " " = "partial " := rfl
    rw [Wrapper.header, ← hpartial]
    simp only [String.append_assoc]
    exact (opensWith_of_mem (by decide)).append

/-- What stands before the namespace. -/
theorem SourceUnit.opensWith_preamble (u : SourceUnit) :
    ∀ l ∈ ({ depth := 0, text := "// <auto-generated/>" } : Line) ::
      (if u.nullableDirective then [{ depth := 0, text := "#nullable enable" }] else []),
      OpensWith plainStarts l.text := by
  refine List.forall_mem_cons.mpr ⟨⟨"// ", by decide⟩, ?_⟩
  split
  · exact List.forall_mem_singleton.mpr ⟨"#nullable ", by decide⟩
  · exact List.forall_mem_nil _

end Bindable
