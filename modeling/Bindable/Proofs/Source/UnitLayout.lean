import Bindable.Proofs.Emission.Wiring
import Bindable.Proofs.Source.FlushRows

/-! The layout of a unit whose texts have neither line breaks nor braces: what its string literals
hold cannot disturb it. -/

namespace Bindable

def Unbraced (s : String) : Prop := '\x7b' ∉ s.toList ∧ '\x7d' ∉ s.toList

instance : DecidablePred Unbraced := fun _ => inferInstanceAs (Decidable (_ ∧ _))

/-- The text has a last character, and this is no brace. -/
def endsUnbraced (s : String) : Bool := s.toList.getLast?.any fun c => c ≠ '\x7b' && c ≠ '\x7d'

section Endings

variable {s t : String}

theorem endsUnbraced_append (h : endsUnbraced t) : endsUnbraced (s ++ t) := by
  have hne : t.toList ≠ [] := by
    intro hnil
    rw [endsUnbraced, hnil] at h
    exact Bool.false_ne_true h
  rwa [endsUnbraced, String.toList_append, List.getLast?_append_of_ne_nil _ hne]

theorem endsUnbraced_append_unbraced (hs : endsUnbraced s) (ht : Unbraced t) :
    endsUnbraced (s ++ t) := by
  rcases List.eq_nil_or_concat t.toList with hnil | ⟨cs, c, hlast⟩
  · rwa [String.toList_eq_nil_iff.mp hnil, String.append_empty]
  · have hc : c ∈ t.toList := by simp [hlast]
    have hopen : c ≠ '\x7b' := fun he => ht.1 (he ▸ hc)
    have hclose : c ≠ '\x7d' := fun he => ht.2 (he ▸ hc)
    refine endsUnbraced_append ?_
    simp [endsUnbraced, hlast, hopen, hclose]

theorem brace?_eq_none (h : endsUnbraced s) : brace? s.toList = none := by
  have hlast : ∀ c, s.toList.dropWhile (· = ' ') = [c] → s.toList.getLast? = some c := by
    intro c hc
    rw [← List.takeWhile_append_dropWhile (p := (· = ' ')) (l := s.toList), hc,
      List.getLast?_append_of_ne_nil _ (List.cons_ne_nil c [])]
    rfl
  rw [brace?]
  split
  next hopen => simp [endsUnbraced, hlast _ hopen] at h
  next hclose => simp [endsUnbraced, hlast _ hclose] at h
  next => rfl

end Endings

section Steps

theorem endsUnbraced_argumentTexts (arguments : List String) :
    ∀ t ∈ argumentTexts arguments, endsUnbraced t := by
  intro t ht
  obtain ⟨a, -, rfl | rfl⟩ := mem_argumentTexts ht
  · exact endsUnbraced_append rfl
  · exact endsUnbraced_append rfl

theorem endsUnbraced_attributeSteps (attributes : List String) :
    EachText (endsUnbraced ·) (attributeSteps attributes) :=
  eachText_attributeSteps fun _ => endsUnbraced_append rfl

theorem FieldMember.endsUnbraced_steps (f : FieldMember) : EachText (endsUnbraced ·) f.steps := by
  refine eachText_append.mpr ⟨endsUnbraced_attributeSteps f.attributes, ?_⟩
  cases f.initializer with
  | call target arguments =>
    dsimp only
    split
    · refine List.forall_mem_cons.mpr ⟨?_, List.forall_mem_singleton.mpr ?_⟩
      · exact List.forall_mem_singleton.mpr (endsUnbraced_append rfl)
      · exact endsUnbraced_argumentTexts _
    · exact eachText_line.mpr (endsUnbraced_append rfl)
  | _ => exact eachText_line.mpr (endsUnbraced_append rfl)

/-- The name is at the end of the header. -/
theorem PropertyMember.endsUnbraced_steps {p : PropertyMember} (h : Unbraced p.name) :
    EachText (endsUnbraced ·) p.steps := by
  have hhead : endsUnbraced p.head := endsUnbraced_append_unbraced (endsUnbraced_append rfl) h
  have haccessors : ∀ t ∈ p.accessorTexts, endsUnbraced t := by
    intro t ht
    rcases List.mem_cons.mp ht with rfl | ht
    · exact endsUnbraced_append rfl
    · obtain ⟨s, -, rfl⟩ := Option.map_eq_some_iff.mp (Option.mem_toList.mp ht)
      exact endsUnbraced_append rfl
  refine eachText_append.mpr ⟨endsUnbraced_attributeSteps p.attributes, ?_⟩
  exact eachText_block.mpr ⟨hhead, eachText_lines.mpr haccessors⟩

theorem MethodMember.endsUnbraced_steps (m : MethodMember) : EachText (endsUnbraced ·) m.steps := by
  refine eachText_append.mpr ⟨endsUnbraced_attributeSteps m.attributes, ?_⟩
  cases m.body with
  | none => exact eachText_line.mpr (endsUnbraced_append rfl)
  | some body => exact eachText_line.mpr (endsUnbraced_append rfl)

theorem Member.endsUnbraced_steps {m : Member} (h : Unbraced m.name) :
    EachText (endsUnbraced ·) m.steps := by
  cases m with
  | field f => exact f.endsUnbraced_steps
  | property p => exact PropertyMember.endsUnbraced_steps h
  | method m => exact m.endsUnbraced_steps

theorem Wrapper.endsUnbraced_header {w : Wrapper} (h : Unbraced w.name) : endsUnbraced w.header := by
  have hname : endsUnbraced ("partial " ++ w.keyword ++ " " ++ w.name) :=
    endsUnbraced_append_unbraced (endsUnbraced_append rfl) h
  rw [header, parameterList]
  split
  · rwa [String.append_empty]
  · exact endsUnbraced_append (endsUnbraced_append rfl)

theorem SourceUnit.endsUnbraced_headers {u : SourceUnit} (h : ∀ s ∈ u.texts, Unbraced s) :
    ∀ header ∈ u.headers, endsUnbraced header := by
  simp only [texts, List.forall_mem_append, List.forall_mem_flatMap] at h
  obtain ⟨⟨hnamespace, hwrappers⟩, -⟩ := h
  rw [headers, List.forall_mem_append, List.forall_mem_map]
  refine ⟨fun header hheader => ?_, fun w hw => ?_⟩
  · obtain ⟨name, hname, rfl⟩ := Option.map_eq_some_iff.mp (Option.mem_toList.mp hheader)
    exact endsUnbraced_append_unbraced rfl (hnamespace name (Option.mem_toList.mpr hname))
  · exact Wrapper.endsUnbraced_header (hwrappers w hw w.name (by simp [Wrapper.texts]))

theorem Member.name_mem_texts (m : Member) : m.name ∈ m.texts := by
  cases m with
  | field f => simp [name, texts, FieldMember.texts]
  | property p => simp [name, texts, PropertyMember.texts]
  | method m => simp [name, texts, MethodMember.texts]

/-- No text that is given to the printer can be taken for a brace. -/
theorem SourceUnit.endsUnbraced_steps {u : SourceUnit} (h : ∀ s ∈ u.texts, Unbraced s) :
    EachText (endsUnbraced ·) u.steps := by
  have hmembers : ∀ m ∈ u.members, Unbraced m.name := fun m hm =>
    h m.name (List.mem_append_right _ (List.mem_flatMap.mpr ⟨m, hm, m.name_mem_texts⟩))
  exact eachText_steps rfl rfl (endsUnbraced_headers h) fun m hm =>
    Member.endsUnbraced_steps (hmembers m hm)

end Steps

section Texts

mutual

/-- What stands in an expression has no texts of its own. -/
theorem Expr.texts_subset : (e : Expr) → ∀ part ∈ e.parts, part.texts ⊆ e.texts
  | .literal _, part, h => by simp_all [parts]
  | .ident _, part, h => by simp_all [parts]
  | .typeOf _, part, h => by simp_all [parts]
  | .defaultOf _, part, h => by simp_all [parts]
  | .member target name, part, h => by
    rcases List.mem_cons.mp h with rfl | hpart
    · exact List.Subset.refl _
    · exact List.subset_append_of_subset_left _ (texts_subset target part hpart)
  | .cast type operand, part, h => by
    rcases List.mem_cons.mp h with rfl | hpart
    · exact List.Subset.refl _
    · exact List.subset_cons_of_subset _ (texts_subset operand part hpart)
  | .unchecked operand, part, h => by
    rcases List.mem_cons.mp h with rfl | hpart
    · exact List.Subset.refl _
    · exact texts_subset operand part hpart
  | .call target arguments, part, h => by
    rcases List.mem_cons.mp h with rfl | hpart
    · exact List.Subset.refl _
    rcases List.mem_append.mp hpart with htarget | harguments
    · exact List.subset_append_of_subset_left _ (texts_subset target part htarget)
    · exact List.subset_append_of_subset_right _ (textsOfArguments_subset arguments part harguments)
  | .lambda params body, part, h => by
    rcases List.mem_cons.mp h with rfl | hpart
    · exact List.Subset.refl _
    · exact List.subset_append_of_subset_right _ (texts_subset body part hpart)

theorem Expr.textsOfArguments_subset : (arguments : List (Option String × Expr)) →
    ∀ part ∈ Expr.partsOfArguments arguments, part.texts ⊆ Expr.textsOfArguments arguments
  | [], _, h => absurd h (by simp [partsOfArguments])
  | (name, value) :: rest, part, h => by
    rcases List.mem_append.mp h with hvalue | hrest
    · exact List.subset_append_of_subset_left _
        (List.subset_append_of_subset_right _ (texts_subset value part hvalue))
    · exact List.subset_append_of_subset_right _ (textsOfArguments_subset rest part hrest)

end

theorem Member.texts_subset {m : Member} {e : Expr} (h : e ∈ m.exprs) : e.texts ⊆ m.texts := by
  intro s hs
  cases m with
  | field f =>
    obtain rfl := List.mem_singleton.mp h
    exact List.mem_append_right _ hs
  | property p =>
    have hbody : ∀ a : AccessorBody, a.body = e → s ∈ a.texts := by
      rintro a rfl
      exact List.mem_append_right _ hs
    rcases List.mem_cons.mp h with rfl | hsetter
    · exact List.mem_append_left _ (List.mem_append_right _ (hbody p.getter rfl))
    · obtain ⟨a, ha, rfl⟩ := Option.map_eq_some_iff.mp (Option.mem_toList.mp hsetter)
      exact List.mem_append_right _ (List.mem_flatMap.mpr ⟨a, Option.mem_toList.mpr ha, hbody a rfl⟩)
  | method m => exact List.mem_append_right _ (List.mem_flatMap.mpr ⟨e, h, hs⟩)

end Texts

section Blocks

variable {depth : Nat}

theorem text_ne_of_mem_argumentLines {arguments : List String} :
    ∀ l ∈ argumentLines depth arguments, l.text ≠ "" := by
  induction arguments with
  | nil => simp [argumentLines]
  | cons a rest ih =>
    cases rest with
    | nil => simp [argumentLines]
    | cons a' rest =>
      rw [argumentLines_cons_cons]
      exact List.forall_mem_cons.mpr ⟨by simp, ih⟩

theorem text_ne_of_mem_attributeLines {attributes : List String} :
    ∀ l ∈ attributeLines depth attributes, l.text ≠ "" := by
  simp [attributeLines]

theorem Member.text_ne_of_mem_lines (m : Member) : ∀ l ∈ m.lines depth, l.text ≠ "" := by
  cases m with
  | field f =>
    refine List.forall_mem_append.mpr ⟨text_ne_of_mem_attributeLines, ?_⟩
    cases f.initializer with
    | call target arguments =>
      dsimp only
      split
      · exact List.forall_mem_cons.mpr ⟨by simp, text_ne_of_mem_argumentLines⟩
      · simp
    | _ => simp
  | property p =>
    simp only [lines, PropertyMember.lines, List.forall_mem_append]
    refine ⟨⟨⟨⟨text_ne_of_mem_attributeLines, by simp⟩, ?_⟩, ?_⟩, by simp⟩
    · simp [AccessorBody.line]
    · cases p.setter <;> simp [AccessorBody.line]
  | method m =>
    refine List.forall_mem_append.mpr ⟨text_ne_of_mem_attributeLines, ?_⟩
    cases m.body <;> simp

/-- The lines of a member as they stand in the text. -/
def Member.block (m : Member) (depth : Nat) : List (List Char) := (m.lines depth).map (·.chars)

theorem Line.chars_ne_nil {l : Line} (h : l.text ≠ "") : l.chars ≠ [] := by
  rw [chars, if_neg h]
  exact fun he => h (String.toList_eq_nil_iff.mp (List.append_eq_nil_iff.mp he).2)

theorem Member.nil_notMem_block (m : Member) : [] ∉ m.block depth := by
  intro h
  obtain ⟨l, hl, he⟩ := List.mem_map.mp h
  exact Line.chars_ne_nil (m.text_ne_of_mem_lines l hl) he

theorem Member.lines_ne_nil (m : Member) : m.lines depth ≠ [] := by
  cases m with
  | field f =>
    refine List.append_ne_nil_of_right_ne_nil _ ?_
    cases f.initializer with
    | call target arguments =>
      dsimp only
      split <;> exact List.cons_ne_nil _ _
    | _ => exact List.cons_ne_nil _ _
  | property p => simp [lines, PropertyMember.lines]
  | method m =>
    refine List.append_ne_nil_of_right_ne_nil _ ?_
    cases m.body <;> exact List.cons_ne_nil _ _

theorem chars_memberLines (members : List Member) (depth : Nat) :
    (memberLines members depth).map (·.chars) = [[]].intercalate (members.map (·.block depth)) := by
  induction members with
  | nil => rfl
  | cons m rest ih =>
    cases rest with
    | nil => simp [memberLines_singleton, Member.block]
    | cons m' rest =>
      rw [memberLines_cons_cons, List.map_append, List.map_cons, ih]
      simp [Member.block, List.intercalate, blankLine, Line.chars]

end Blocks

namespace SourceUnit

def textLines (u : SourceUnit) : List (List Char) := (u.render.toList.splitOn '\n').dropLast

/-- What the printer is told to write, line by line and without any indentation. -/
def rows (u : SourceUnit) : List Row := u.steps.flatMap (·.rows)

/-- All that is rendered as an expression, the parts of other expressions too. -/
def expressions (u : SourceUnit) : List Expr := u.members.flatMap fun m => m.exprs.flatMap (·.parts)

structure WellLaidOut (u : SourceUnit) : Prop where
  /-- The last line ends as the others do. -/
  ended : u.render.toList.splitOn '\n' = u.textLines ++ [[]]
  expressions_oneLine : ∀ e ∈ u.expressions, OneLine e.render
  /-- The printer is never sent out from depth zero, and in the end it is there. -/
  printed : Printer.start.run u.steps = some { lines := u.lines, depth := 0 }
  braces_match : ∃ w : DyckWord, w.toList = braces u.textLines
  indented : ∀ i line, u.textLines[i]? = some line → line ≠ [] →
    ∃ (r : Row) (level : Nat), u.rows[i]? = some r ∧
      level = openAround (u.textLines.take i) line ∧
      line = List.replicate (4 * if r.isArgument then level + 1 else level) ' ' ++ r.text.toList
  /-- If each member has a modifier and no text starts with a blank, no row has blanks of its own, and
  those at the start of a line are four for each open block. -/
  blanks : (∀ m ∈ u.members, m.modifiers ≠ []) → (∀ s ∈ u.texts, isFlush s) →
    ∀ i line, u.textLines[i]? = some line → line ≠ [] →
      ∃ (r : Row) (level : Nat), u.rows[i]? = some r ∧
        level = openAround (u.textLines.take i) line ∧
        (line.takeWhile (· = ' ')).length = 4 * if r.isArgument then level + 1 else level
  members_apart : ∃ before after,
    u.textLines = before ++ [[]].intercalate (u.members.map (·.block u.headers.length)) ++ after ∧
      ∀ m ∈ u.members, m.block u.headers.length ≠ [] ∧ [] ∉ m.block u.headers.length

theorem splitOn_render {u : SourceUnit} (h : ∀ s ∈ u.texts, OneLine s) :
    u.render.toList.splitOn '\n' = u.lines.map (·.chars) ++ [[]] :=
  splitOn_join_render (oneLine_lines h)

theorem textLines_eq {u : SourceUnit} (h : ∀ s ∈ u.texts, OneLine s) :
    u.textLines = u.lines.map (·.chars) := by
  rw [textLines, splitOn_render h, List.dropLast_concat]

theorem layout {u : SourceUnit} (h : ∀ s ∈ u.texts, Unbraced s) :
    Layout u.rows (u.lines.map (·.chars)) 0 := by
  have hsteps : ∀ s ∈ u.steps, ∀ t ∈ s.texts, brace? t.toList = none := fun s hs t ht =>
    brace?_eq_none (endsUnbraced_steps h s hs t ht)
  exact Printer.wrote_start.run hsteps u.run_steps

theorem oneLine_of_mem_expressions {u : SourceUnit} (h : ∀ s ∈ u.texts, OneLine s) :
    ∀ e ∈ u.expressions, OneLine e.render := by
  intro e he
  obtain ⟨m, hm, he⟩ := List.mem_flatMap.mp he
  obtain ⟨whole, hwhole, hpart⟩ := List.mem_flatMap.mp he
  have hsubset : e.texts ⊆ m.texts :=
    List.Subset.trans (whole.texts_subset e hpart) (Member.texts_subset hwhole)
  refine e.oneLine_render fun s hs => h s ?_
  exact List.mem_append_right _ (List.mem_flatMap.mpr ⟨m, hm, hsubset hs⟩)

theorem chars_members_isInfix (u : SourceUnit) :
    [[]].intercalate (u.members.map (·.block u.headers.length)) <:+: u.lines.map (·.chars) := by
  have hnest := isInfix_nest u.headers 0 (memberLines u.members)
  rw [Nat.zero_add] at hnest
  have hbody : memberLines u.members u.headers.length <:+: u.lines :=
    hnest.trans (List.suffix_append _ _).isInfix
  rw [← chars_memberLines]
  exact hbody.map (·.chars)

theorem indentation {u : SourceUnit} (h : ∀ s ∈ u.texts, OneLine s ∧ Unbraced s) {i : Nat}
    {line : List Char} (hline : u.textLines[i]? = some line) (hne : line ≠ []) :
    ∃ (r : Row) (level : Nat), u.rows[i]? = some r ∧
      level = openAround (u.textLines.take i) line ∧
      line = List.replicate (4 * if r.isArgument then level + 1 else level) ' ' ++ r.text.toList := by
  have hlayout := layout fun s hs => (h s hs).2
  rw [textLines_eq fun s hs => (h s hs).1] at hline ⊢
  obtain ⟨r, level, hrow, hlevel, hchars⟩ := hlayout.indented.line_eq i line hline
  refine ⟨r, level, hrow, hlevel, ?_⟩
  -- an empty line is the only one that is not indented
  have htext : (r.atLevel level).text ≠ "" := fun hempty => hne (hchars.trans (if_pos hempty))
  rw [hchars, Line.chars, if_neg htext, Nat.mul_comm]
  rfl

/-- A unit whose texts have neither line breaks nor braces is laid out well. -/
theorem wellLaidOut {u : SourceUnit} (h : ∀ s ∈ u.texts, OneLine s ∧ Unbraced s) : u.WellLaidOut := by
  have honeLine : ∀ s ∈ u.texts, OneLine s := fun s hs => (h s hs).1
  have hlines := textLines_eq honeLine
  have hlayout := layout fun s hs => (h s hs).2
  constructor
  case ended => rw [hlines, splitOn_render honeLine]
  case expressions_oneLine => exact oneLine_of_mem_expressions honeLine
  case printed => exact u.run_steps
  case braces_match =>
    rw [hlines]
    exact ⟨⟨_, hlayout.depth_eq.symm, hlayout.closed_le⟩, rfl⟩
  case indented => exact fun i line hline hne => indentation h hline hne
  case blanks =>
    intro hmodifiers hflush i line hline hne
    obtain ⟨r, level, hrow, hlevel, hchars⟩ := indentation h hline hne
    have hhead : r.text.toList.head? ≠ some ' ' :=
      head?_ne_of_mem_rows (isFlush_steps hmodifiers hflush) r (List.mem_of_getElem? hrow)
    refine ⟨r, level, hrow, hlevel, ?_⟩
    rw [hchars, takeWhile_blanks_append hhead, List.length_replicate]
  case members_apart =>
    obtain ⟨before, after, he⟩ := u.chars_members_isInfix
    refine ⟨before, after, by rw [hlines, ← he], fun m _ => ⟨?_, m.nil_notMem_block⟩⟩
    exact fun hnil => m.lines_ne_nil (List.map_eq_nil_iff.mp hnil)

def labelUnit : SourceUnit where
  nullableDirective := true
  namespaceName := some "Demo"
  wrappers := [⟨"class", "Panel", ["T"]⟩, ⟨"class", "Label", []⟩]
  members :=
    [.field
      { attributes := ["Generated"]
        modifiers := ["public", "static", "readonly"]
        type := "BindableProperty"
        name := "TextProperty"
        initializer := .call (.member (.ident "BindableProperty") "Create")
          [Expr.named "propertyName" (.literal (.string "Text")),
            Expr.named "defaultValue" (.literal (.string "\x7d\n\x7b\n"))] },
      .property
        { attributes := []
          modifiers := ["public"]
          type := "string"
          name := "Text"
          getter := ⟨[], .cast "string" (.ident "value")⟩
          setter := none },
      .method
        { attributes := [], modifiers := ["partial"], returnType := "void", name := "OnTextChanged"
          parameters := [⟨"string", "newValue"⟩], body := none }]

theorem wellLaidOut_labelUnit :
    (∀ s ∈ labelUnit.texts, OneLine s ∧ Unbraced s) ∧ labelUnit.WellLaidOut ∧
      (∀ m ∈ labelUnit.members, m.modifiers ≠ []) ∧ ∀ s ∈ labelUnit.texts, isFlush s :=
  ⟨by decide, wellLaidOut (by decide), by decide, by decide⟩

end SourceUnit

end Bindable
