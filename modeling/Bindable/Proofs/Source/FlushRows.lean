import Bindable.Proofs.Source.Braces

/-! Rows without blanks of their own. As long as no text of a unit starts with a blank and each member
has a modifier, whatever blanks stand at the start of a line are its indentation. -/

namespace Bindable

/-- The text starts with something other than a blank. -/
def isFlush (s : String) : Bool := s.toList.head?.any (· ≠ ' ')

section Texts

variable {s t : String}

theorem isFlush_append (h : isFlush s) : isFlush (s ++ t) := by
  rw [isFlush] at h ⊢
  rw [String.toList_append]
  cases hs : s.toList with
  | nil => simp [hs] at h
  | cons c cs => simpa [hs] using h

theorem isFlush_words {ws : List String} (hne : ws ≠ []) (h : ∀ w ∈ ws, isFlush w) :
    isFlush (words ws) := by
  obtain ⟨w, ws, rfl⟩ := List.exists_cons_of_ne_nil hne
  have hw := h w List.mem_cons_self
  rw [words]
  cases ws with
  | nil => rwa [String.intercalate_singleton]
  | cons w' ws =>
    rw [String.intercalate_cons_cons]
    exact isFlush_append (isFlush_append hw)

theorem isFlush_toString (n : Int) : isFlush (toString n) := by
  have hdigits : ∀ m : Nat, isFlush m.repr := by
    intro m
    rw [isFlush, Nat.toList_repr]
    cases hm : Nat.toDigits 10 m with
    | nil => exact absurd hm Nat.toDigits_ne_nil
    | cons c cs =>
      have hdigit : c.isDigit :=
        Nat.isDigit_of_mem_toDigits (by decide) (by decide) (hm ▸ List.mem_cons_self)
      have hne : c ≠ ' ' := by
        rintro rfl
        exact absurd hdigit (by decide)
      simpa using hne
  rw [Int.toString_eq_repr, Int.repr_eq_if]
  split
  · exact hdigits _
  · exact isFlush_append rfl

theorem head?_ne_of_isFlush (h : isFlush s) : s.toList.head? ≠ some ' ' := by
  intro hblank
  simp [isFlush, hblank] at h

theorem takeWhile_blanks_append (h : s.toList.head? ≠ some ' ') (n : Nat) :
    (List.replicate n ' ' ++ s.toList).takeWhile (· = ' ') = List.replicate n ' ' := by
  have hs : s.toList.takeWhile (· = ' ') = [] := by
    cases hs : s.toList with
    | nil => rfl
    | cons c cs =>
      have hc : c ≠ ' ' := by simpa [hs] using h
      exact List.takeWhile_cons_of_neg (by simpa using hc)
  rw [List.takeWhile_append_of_pos (by simp), hs, List.append_nil]

end Texts

section Expressions

theorem Literal.isFlush_renderInteger (kind : Primitive) (n : Int) :
    isFlush (renderInteger kind n) := by
  have hn := isFlush_toString n
  unfold renderInteger
  split
  · exact hn
  · exact isFlush_append hn
  · exact isFlush_append hn
  · exact isFlush_append hn
  · exact isFlush_append (isFlush_append (isFlush_append rfl))

theorem Literal.isFlush_render {l : Literal} (h : ∀ s ∈ l.texts, isFlush s) : isFlush l.render := by
  cases l with
  | null => rfl
  | bool b => cases b <;> rfl
  | char unit =>
    show isFlush ("'" ++ String.ofList (escapeUnit unit) ++ "'")
    exact isFlush_append (isFlush_append rfl)
  | string s =>
    show isFlush (quote s)
    unfold quote
    exact isFlush_append (isFlush_append rfl)
  | integer kind n => exact isFlush_renderInteger kind n
  | real kind text => exact isFlush_append (h _ (List.mem_singleton_self _))

theorem Expr.isFlush_enclosePrimary (target : Expr) {text : String} (h : isFlush text) :
    isFlush (enclosePrimary target text) := by
  unfold enclosePrimary
  split
  · exact isFlush_append (isFlush_append rfl)
  · exact isFlush_append (isFlush_append rfl)
  · exact h

theorem Expr.isFlush_render : (e : Expr) → (∀ s ∈ e.texts, isFlush s) → isFlush e.render
  | literal value, h => Literal.isFlush_render h
  | ident name, h => h name (List.mem_singleton_self name)
  | typeOf type, _ => by
    show isFlush ("typeof(" ++ type ++ ")")
    exact isFlush_append (isFlush_append rfl)
  | defaultOf type, _ => by
    show isFlush ("default(" ++ type ++ ")")
    exact isFlush_append (isFlush_append rfl)
  | unchecked operand, _ => by
    show isFlush ("unchecked(" ++ operand.render ++ ")")
    exact isFlush_append (isFlush_append rfl)
  | member target name, h => by
    have htarget := isFlush_render target (List.forall_mem_append.mp h).1
    show isFlush (enclosePrimary target target.render ++ "." ++ name)
    exact isFlush_append (isFlush_append (isFlush_enclosePrimary target htarget))
  | cast type operand, _ => by
    show isFlush ("(" ++ type ++ ")" ++ encloseOperand operand operand.render)
    exact isFlush_append (isFlush_append (isFlush_append rfl))
  | call target arguments, h => by
    have htarget := isFlush_render target (List.forall_mem_append.mp h).1
    rw [render]
    exact isFlush_append (isFlush_append (isFlush_append (isFlush_enclosePrimary target htarget)))
  | lambda params body, _ => by
    show isFlush ("static " ++ renderParams params ++ " => " ++ body.render)
    exact isFlush_append (isFlush_append (isFlush_append rfl))

theorem Expr.isFlush_renderArguments {arguments : List (Option String × Expr)}
    (h : ∀ s ∈ textsOfArguments arguments, isFlush s) :
    ∀ a ∈ renderArguments arguments, isFlush a := by
  induction arguments with
  | nil => simp [renderArguments]
  | cons a rest ih =>
    obtain ⟨name, value⟩ := a
    obtain ⟨hfirst, hrest⟩ := List.forall_mem_append.mp h
    obtain ⟨hname, hvalue⟩ := List.forall_mem_append.mp hfirst
    cases name with
    | none => exact List.forall_mem_cons.mpr ⟨value.isFlush_render hvalue, ih hrest⟩
    | some name =>
      have hstart := hname name (List.mem_singleton_self name)
      exact List.forall_mem_cons.mpr ⟨isFlush_append (isFlush_append hstart), ih hrest⟩

end Expressions

/-- The words a member starts with, after its attributes. -/
def Member.modifiers : Member → List String
  | field f => f.modifiers
  | property p => p.modifiers
  | method m => m.modifiers

section Members

theorem isFlush_attributeSteps (attributes : List String) :
    EachText (isFlush ·) (attributeSteps attributes) :=
  eachText_attributeSteps fun _ => isFlush_append (isFlush_append rfl)

theorem isFlush_argumentTexts {arguments : List String} (h : ∀ a ∈ arguments, isFlush a) :
    ∀ t ∈ argumentTexts arguments, isFlush t := by
  intro t ht
  obtain ⟨a, ha, rfl | rfl⟩ := mem_argumentTexts ht
  · exact isFlush_append (h a ha)
  · exact isFlush_append (h a ha)

theorem FieldMember.isFlush_steps {f : FieldMember} (hne : f.modifiers ≠ [])
    (h : ∀ s ∈ f.texts, isFlush s) : EachText (isFlush ·) f.steps := by
  simp only [texts, List.forall_mem_append] at h
  obtain ⟨⟨⟨-, hmodifiers⟩, -⟩, hinitializer⟩ := h
  have hhead : ∀ t, isFlush (f.head ++ t) := by
    intro t
    rw [head]
    simp only [String.append_assoc]
    exact isFlush_append (isFlush_words hne hmodifiers)
  refine eachText_append.mpr ⟨isFlush_attributeSteps f.attributes, ?_⟩
  split
  next target arguments hcall =>
    rw [hcall] at hinitializer
    have harguments := Expr.isFlush_renderArguments (List.forall_mem_append.mp hinitializer).2
    split
    · refine List.forall_mem_cons.mpr ⟨List.forall_mem_singleton.mpr ?_, ?_⟩
      · rw [String.append_assoc]
        exact hhead _
      · exact List.forall_mem_singleton.mpr (isFlush_argumentTexts harguments)
    · rw [eachText_line, String.append_assoc]
      exact hhead _
  next =>
    rw [eachText_line, String.append_assoc]
    exact hhead _

theorem AccessorBody.isFlush_line {a : AccessorBody} {keyword : String}
    (h : ∀ s ∈ a.texts, isFlush s) (hkeyword : isFlush keyword) :
    isFlush (a.line 0 keyword).text := by
  have hmodifiers := (List.forall_mem_append.mp h).1
  rw [line]
  simp only [String.append_assoc]
  split
  next =>
    rw [String.empty_append]
    exact isFlush_append hkeyword
  next hne =>
    have hwords : a.modifiers ≠ [] := by
      intro hnil
      rw [hnil] at hne
      exact hne rfl
    rw [String.append_assoc]
    exact isFlush_append (isFlush_words hwords hmodifiers)

theorem PropertyMember.isFlush_steps {p : PropertyMember} (hne : p.modifiers ≠ [])
    (h : ∀ s ∈ p.texts, isFlush s) : EachText (isFlush ·) p.steps := by
  simp only [texts, List.forall_mem_append, List.forall_mem_flatMap] at h
  obtain ⟨⟨⟨⟨-, hmodifiers⟩, -⟩, hgetter⟩, hsetter⟩ := h
  have hhead : isFlush p.head := by
    rw [head]
    simp only [String.append_assoc]
    exact isFlush_append (isFlush_words hne hmodifiers)
  have haccessors : ∀ t ∈ p.accessorTexts, isFlush t := by
    intro t ht
    rcases List.mem_cons.mp ht with rfl | ht
    · exact AccessorBody.isFlush_line hgetter rfl
    · obtain ⟨s, hs, rfl⟩ := Option.map_eq_some_iff.mp (Option.mem_toList.mp ht)
      exact AccessorBody.isFlush_line (hsetter s (Option.mem_toList.mpr hs)) rfl
  refine eachText_append.mpr ⟨isFlush_attributeSteps p.attributes, ?_⟩
  exact eachText_block.mpr ⟨hhead, eachText_lines.mpr haccessors⟩

theorem MethodMember.isFlush_steps {m : MethodMember} (hne : m.modifiers ≠ [])
    (h : ∀ s ∈ m.texts, isFlush s) : EachText (isFlush ·) m.steps := by
  simp only [texts, List.forall_mem_append] at h
  obtain ⟨⟨⟨⟨-, hmodifiers⟩, -⟩, -⟩, -⟩ := h
  have hsignature : ∀ t, isFlush (m.signature ++ t) := by
    intro t
    rw [signature]
    simp only [String.append_assoc]
    exact isFlush_append (isFlush_words hne hmodifiers)
  refine eachText_append.mpr ⟨isFlush_attributeSteps m.attributes, ?_⟩
  cases m.body with
  | none => exact eachText_line.mpr (hsignature _)
  | some body =>
    rw [eachText_line, String.append_assoc, String.append_assoc]
    exact hsignature _

theorem Member.isFlush_steps {m : Member} (hne : m.modifiers ≠ []) (h : ∀ s ∈ m.texts, isFlush s) :
    EachText (isFlush ·) m.steps := by
  cases m with
  | field f => exact FieldMember.isFlush_steps hne h
  | property p => exact PropertyMember.isFlush_steps hne h
  | method m => exact MethodMember.isFlush_steps hne h

end Members

section Units

theorem SourceUnit.isFlush_headers (u : SourceUnit) : ∀ header ∈ u.headers, isFlush header := by
  rw [headers, List.forall_mem_append, List.forall_mem_map]
  refine ⟨fun header hheader => ?_, fun w _ => ?_⟩
  · obtain ⟨name, -, rfl⟩ := Option.map_eq_some_iff.mp (Option.mem_toList.mp hheader)
    exact isFlush_append rfl
  · rw [Wrapper.header]
    exact isFlush_append (isFlush_append (isFlush_append (isFlush_append rfl)))

theorem SourceUnit.isFlush_steps {u : SourceUnit} (hne : ∀ m ∈ u.members, m.modifiers ≠ [])
    (h : ∀ s ∈ u.texts, isFlush s) : EachText (isFlush ·) u.steps := by
  have hmembers : ∀ m ∈ u.members, ∀ s ∈ m.texts, isFlush s :=
    List.forall_mem_flatMap.mp (List.forall_mem_append.mp h).2
  exact eachText_steps rfl rfl u.isFlush_headers fun m hm =>
    Member.isFlush_steps (hne m hm) (hmembers m hm)

/-- An empty row starts with nothing, and a brace with itself. -/
theorem head?_ne_of_mem_rows {steps : List PrinterStep} (h : EachText (isFlush ·) steps) :
    ∀ r ∈ steps.flatMap (·.rows), r.text.toList.head? ≠ some ' ' := by
  rw [List.forall_mem_flatMap]
  intro s hs
  have htexts : ∀ t ∈ s.texts, t.toList.head? ≠ some ' ' := fun t ht =>
    head?_ne_of_isFlush (h s hs t ht)
  cases s with
  | line text => exact List.forall_mem_singleton.mpr (htexts text (List.mem_singleton_self text))
  | blank => exact List.forall_mem_singleton.mpr (by decide)
  | enter header =>
    have hheader := htexts header (List.mem_singleton_self header)
    exact List.forall_mem_cons.mpr ⟨hheader, List.forall_mem_singleton.mpr (by decide)⟩
  | leave => exact List.forall_mem_singleton.mpr (by decide)
  | arguments texts =>
    rw [PrinterStep.rows, List.forall_mem_map]
    exact htexts

end Units

end Bindable
