import Bindable.Proofs.Json.Lexemes

/-! The texts that stand for a document differ in their blanks alone, and the reader takes each of
them. -/

namespace Bindable.Json

def Blanks (cs : List Char) : Prop := ∀ c ∈ cs, isBlank c = true

theorem blanks_nil : Blanks [] := fun _ h => absurd h List.not_mem_nil

mutual

/-- A text stands for a value, without blanks around it. -/
inductive Spells : Json → List Char → Prop
  | null : Spells .null ['n', 'u', 'l', 'l']
  | bool (b : Bool) :
    Spells (.bool b) (if b then ['t', 'r', 'u', 'e'] else ['f', 'a', 'l', 's', 'e'])
  | number {n : Numeral} (h : n.IsDecimal) : Spells (.number n) n.render.toList
  | string (s : Option String) : Spells (.string s) (renderText s).toList
  | emptyArray : Spells (.array []) ['[', ']']
  | array {items : List Json} {gap cs : List Char} (hgap : Blanks gap) (h : SpellsItems items cs) :
    Spells (.array items) ('[' :: (gap ++ cs))
  | emptyObject : Spells (.object []) ['\x7b', '\x7d']
  | object {fields : List (Option String × Json)} {gap cs : List Char} (hgap : Blanks gap)
    (h : SpellsFields fields cs) : Spells (.object fields) ('\x7b' :: (gap ++ cs))

/-- A text stands for the items of an array, its closing bracket included. -/
inductive SpellsItems : List Json → List Char → Prop
  | last {j : Json} {cs gap : List Char} (h : Spells j cs) (hgap : Blanks gap) :
    SpellsItems [j] (cs ++ (gap ++ [']']))
  | cons {j : Json} {items : List Json} {cs gap ds : List Char} (h : Spells j cs)
    (hgap : Blanks gap) (hitems : SpellsItems items ds) :
    SpellsItems (j :: items) (cs ++ ',' :: (gap ++ ds))

/-- A text stands for the fields of an object, its closing brace included. -/
inductive SpellsFields : List (Option String × Json) → List Char → Prop
  | last {j : Json} {colon cs gap : List Char} (key : Option String) (hcolon : Blanks colon)
    (h : Spells j cs) (hgap : Blanks gap) :
    SpellsFields [(key, j)]
      ((renderText key).toList ++ ':' :: (colon ++ (cs ++ (gap ++ ['\x7d']))))
  | cons {j : Json} {fields : List (Option String × Json)} {colon cs gap ds : List Char}
    (key : Option String) (hcolon : Blanks colon) (h : Spells j cs) (hgap : Blanks gap)
    (hfields : SpellsFields fields ds) :
    SpellsFields ((key, j) :: fields)
      ((renderText key).toList ++ ':' :: (colon ++ (cs ++ ',' :: (gap ++ ds))))

end

section Reading

variable {j : Json} {items : List Json} {fields : List (Option String × Json)}
  {key : Option String} {gap cs ds rest : List Char} {fuel : Nat}

theorem skipBlanks_append {c : Char} (hgap : Blanks gap) (hc : isBlank c = false) :
    skipBlanks (gap ++ c :: cs) = c :: cs := by
  rw [skipBlanks, List.dropWhile_append_of_pos hgap, List.dropWhile_cons_of_neg (by simp [hc])]

theorem exists_renderText_eq (s : Option String) : ∃ cs, (renderText s).toList = '"' :: cs := by
  obtain ⟨cs, hcs, -⟩ := text?_renderText s []
  exact ⟨cs, hcs⟩

theorem Spells.exists_eq (h : Spells j cs) :
    ∃ c ds, cs = c :: ds ∧ isBlank c = false ∧ c ≠ ']' := by
  cases h with
  | number h =>
    obtain ⟨c, ds, hc, hstart⟩ := exists_render_numeral_eq h
    refine ⟨c, ds, hc, ?_⟩
    rcases hstart with rfl | hdigit
    · decide
    · have hne : ∀ d : Char, d.isDigit = false → c ≠ d := fun d => ne_of_isDigit hdigit
      refine ⟨?_, hne ']' rfl⟩
      simp [isBlank, hne ' ' rfl, hne '\t' rfl, hne '\n' rfl, hne '\r' rfl]
  | string s =>
    obtain ⟨ds, hds⟩ := exists_renderText_eq s
    exact ⟨'"', ds, hds, by decide⟩
  | bool b => cases b <;> exact ⟨_, _, rfl, by decide⟩
  | _ => exact ⟨_, _, rfl, by decide⟩

theorem SpellsItems.exists_eq (h : SpellsItems items cs) :
    ∃ c ds, cs = c :: ds ∧ isBlank c = false ∧ c ≠ ']' := by
  cases h with
  | last h =>
    obtain ⟨c, ds, rfl, hc⟩ := h.exists_eq
    exact ⟨c, _, rfl, hc⟩
  | cons h =>
    obtain ⟨c, ds, rfl, hc⟩ := h.exists_eq
    exact ⟨c, _, rfl, hc⟩

theorem SpellsFields.exists_eq (h : SpellsFields fields cs) : ∃ ds, cs = '"' :: ds := by
  cases h with
  | last key =>
    obtain ⟨ds, hds⟩ := exists_renderText_eq key
    exact ⟨_, by rw [hds]; rfl⟩
  | cons key =>
    obtain ⟨ds, hds⟩ := exists_renderText_eq key
    exact ⟨_, by rw [hds]; rfl⟩

theorem value?_numeral {c : Char} (hc : c = '-' ∨ c.isDigit = true) :
    value? (fuel + 1) (c :: cs) = (numeral? (c :: cs)).map fun p => (.number p.1, p.2) := by
  rcases hc with rfl | hdigit
  · rfl
  · rw [value?]
    all_goals exact ne_of_isDigit hdigit (by decide)

theorem value?_string (s : Option String) :
    value? (fuel + 1) ((renderText s).toList ++ rest) = some (.string s, rest) := by
  obtain ⟨cs, hcs, ht⟩ := text?_renderText s rest
  rw [hcs, List.cons_append, value?, ht]
  rfl

theorem value?_array {c : Char} (hgap : Blanks gap) (hc : isBlank c = false) (hend : c ≠ ']') :
    value? (fuel + 1) ('[' :: (gap ++ c :: cs)) =
      (items? fuel (c :: cs)).map fun p => (.array p.1, p.2) := by
  rw [value?, skipBlanks_append hgap hc]
  simp [hend]

theorem value?_object (hgap : Blanks gap) :
    value? (fuel + 1) ('\x7b' :: (gap ++ '"' :: cs)) =
      (fields? fuel ('"' :: cs)).map fun p => (.object p.1, p.2) := by
  rw [value?, skipBlanks_append hgap (by decide)]
  rfl

theorem items?_last (hgap : Blanks gap) (h : value? fuel cs = some (j, gap ++ ']' :: rest)) :
    items? (fuel + 1) cs = some ([j], rest) := by
  rw [items?, h, Option.bind_eq_bind, Option.bind_some]
  simp [skipBlanks_append hgap (show isBlank ']' = false by decide)]

theorem items?_cons {c : Char} (hgap : Blanks gap) (hc : isBlank c = false)
    (h : value? fuel cs = some (j, ',' :: (gap ++ c :: ds)))
    (hitems : items? fuel (c :: ds) = some (items, rest)) :
    items? (fuel + 1) cs = some (j :: items, rest) := by
  have hcomma : skipBlanks (',' :: (gap ++ c :: ds)) = ',' :: (gap ++ c :: ds) :=
    skipBlanks_append blanks_nil (by decide)
  rw [items?, h, Option.bind_eq_bind, Option.bind_some]
  simp [hcomma, skipBlanks_append hgap hc, hitems]

theorem skipBlanks_colon : skipBlanks (':' :: cs) = ':' :: cs := rfl

theorem fields?_last {colon : List Char} {c : Char} (hcolon : Blanks colon)
    (hc : isBlank c = false) (hgap : Blanks gap)
    (h : value? fuel (c :: cs) = some (j, gap ++ '\x7d' :: rest)) :
    fields? (fuel + 1) ((renderText key).toList ++ ':' :: (colon ++ c :: cs)) =
      some ([(key, j)], rest) := by
  obtain ⟨ks, hks, ht⟩ := text?_renderText key (':' :: (colon ++ c :: cs))
  rw [hks, List.cons_append, fields?, ht, Option.bind_eq_bind, Option.bind_some]
  simp [skipBlanks_colon, skipBlanks_append hcolon hc, h,
    skipBlanks_append hgap (show isBlank '\x7d' = false by decide)]

theorem fields?_cons {colon : List Char} {c : Char} (hcolon : Blanks colon)
    (hc : isBlank c = false) (hgap : Blanks gap)
    (h : value? fuel (c :: cs) = some (j, ',' :: (gap ++ '"' :: ds)))
    (hfields : fields? fuel ('"' :: ds) = some (fields, rest)) :
    fields? (fuel + 1) ((renderText key).toList ++ ':' :: (colon ++ c :: cs)) =
      some ((key, j) :: fields, rest) := by
  have hcomma : skipBlanks (',' :: (gap ++ '"' :: ds)) = ',' :: (gap ++ '"' :: ds) := rfl
  obtain ⟨ks, hks, ht⟩ := text?_renderText key (':' :: (colon ++ c :: cs))
  rw [hks, List.cons_append, fields?, ht, Option.bind_eq_bind, Option.bind_some]
  simp [skipBlanks_colon, skipBlanks_append hcolon hc, h, hcomma,
    skipBlanks_append hgap (show isBlank '"' = false by decide), hfields]

theorem endsNumeral_of_isBlank {c : Char} (h : isBlank c = true) : EndsNumeral c := by
  simp only [isBlank, Bool.or_eq_true, decide_eq_true_eq] at h
  rcases h with ((rfl | rfl) | rfl) | rfl <;> decide

theorem stopsNumeral_append (rest : List Char) {c : Char} (hgap : Blanks gap)
    (hc : EndsNumeral c) : StopsNumeral (gap ++ c :: rest) := by
  intro d hd
  cases gap with
  | nil =>
    obtain rfl : c = d := by simpa using hd
    exact hc
  | cons b gap =>
    obtain rfl : b = d := by simpa using hd
    exact endsNumeral_of_isBlank (hgap b List.mem_cons_self)

theorem stopsNumeral_comma (rest : List Char) : StopsNumeral (',' :: rest) :=
  stopsNumeral_append rest blanks_nil (by decide)

/-- With this many steps every text that is short enough is read back. -/
structure Reads (fuel : Nat) : Prop where
  value : ∀ {j cs} rest, Spells j cs → StopsNumeral rest → 2 * cs.length ≤ fuel →
    value? fuel (cs ++ rest) = some (j, rest)
  items : ∀ {items cs} rest, SpellsItems items cs → 2 * cs.length ≤ fuel + 1 →
    items? fuel (cs ++ rest) = some (items, rest)
  fields : ∀ {fields cs} rest, SpellsFields fields cs → 2 * cs.length ≤ fuel + 1 →
    fields? fuel (cs ++ rest) = some (fields, rest)

theorem Reads.value_succ (r : Reads fuel) (rest : List Char) (h : Spells j cs)
    (hrest : StopsNumeral rest) (hlen : 2 * cs.length ≤ fuel + 1) :
    value? (fuel + 1) (cs ++ rest) = some (j, rest) := by
  cases h with
  | null => rfl
  | bool b => cases b <;> rfl
  | number h =>
    obtain ⟨c, ds, hc, hstart⟩ := exists_render_numeral_eq h
    have hn := numeral?_render h hrest
    rw [hc, List.cons_append] at hn ⊢
    rw [value?_numeral hstart, hn, Option.map_some]
  | string s => exact value?_string s
  | emptyArray => rfl
  | array hgap h =>
    have hread := r.items rest h (by simp at hlen; omega)
    obtain ⟨c, ds, rfl, hc, hend⟩ := h.exists_eq
    rw [List.cons_append] at hread
    rw [List.cons_append, List.append_assoc, List.cons_append, value?_array hgap hc hend, hread,
      Option.map_some]
  | emptyObject => rfl
  | object hgap h =>
    have hread := r.fields rest h (by simp at hlen; omega)
    obtain ⟨ds, rfl⟩ := h.exists_eq
    rw [List.cons_append] at hread
    rw [List.cons_append, List.append_assoc, List.cons_append, value?_object hgap, hread,
      Option.map_some]

theorem Reads.items_succ (r : Reads fuel) (rest : List Char) (h : SpellsItems items cs)
    (hlen : 2 * cs.length ≤ fuel + 2) : items? (fuel + 1) (cs ++ rest) = some (items, rest) := by
  cases h with
  | last h hgap =>
    simp only [List.length_append, List.length_singleton] at hlen
    simp only [List.append_assoc, List.singleton_append]
    have hstop := stopsNumeral_append rest hgap (show EndsNumeral ']' by decide)
    exact items?_last hgap (r.value _ h hstop (by omega))
  | cons h hgap hitems =>
    simp only [List.length_append, List.length_cons] at hlen
    have hmore := r.items rest hitems (by omega)
    obtain ⟨c, ds, rfl, hc, -⟩ := hitems.exists_eq
    simp only [List.append_assoc, List.cons_append] at hmore ⊢
    exact items?_cons hgap hc (r.value _ h (stopsNumeral_comma _) (by omega)) hmore

theorem Reads.fields_succ (r : Reads fuel) (rest : List Char) (h : SpellsFields fields cs)
    (hlen : 2 * cs.length ≤ fuel + 2) : fields? (fuel + 1) (cs ++ rest) = some (fields, rest) := by
  cases h with
  | last key hcolon h hgap =>
    simp only [List.length_append, List.length_cons] at hlen
    have hread := r.value _ h (stopsNumeral_append rest hgap
      (show EndsNumeral '\x7d' by decide)) (by omega)
    obtain ⟨c, ds, rfl, hc, -⟩ := h.exists_eq
    simp only [List.append_assoc, List.cons_append, List.nil_append] at hread ⊢
    exact fields?_last hcolon hc hgap hread
  | cons key hcolon h hgap hfields =>
    rename_i j fields colon cs gap ds
    simp only [List.length_append, List.length_cons] at hlen
    have hread := r.value _ h (stopsNumeral_comma (gap ++ (ds ++ rest))) (by omega)
    have hmore := r.fields rest hfields (by omega)
    obtain ⟨c, cs, rfl, hc, -⟩ := h.exists_eq
    obtain ⟨ds, rfl⟩ := hfields.exists_eq
    simp only [List.append_assoc, List.cons_append] at hread hmore ⊢
    exact fields?_cons hcolon hc hgap hread hmore

theorem reads (fuel : Nat) : Reads fuel := by
  induction fuel with
  | zero =>
    refine ⟨fun _ h _ hlen => ?_, fun _ h hlen => ?_, fun _ h hlen => ?_⟩
    · obtain ⟨c, ds, rfl, -⟩ := h.exists_eq
      simp at hlen
    · obtain ⟨c, ds, rfl, -⟩ := h.exists_eq
      simp at hlen
      omega
    · obtain ⟨ds, rfl⟩ := h.exists_eq
      simp at hlen
      omega
  | succ fuel ih => exact ⟨ih.value_succ, ih.items_succ, ih.fields_succ⟩

/-- A text that stands for a document is read back to it. -/
theorem ofChars?_of_spells (h : Spells j cs) : ofChars? cs = some j := by
  have hread := (reads (2 * cs.length + 2)).value [] h (by simp [StopsNumeral]) (by omega)
  obtain ⟨c, ds, rfl, hc, -⟩ := h.exists_eq
  have hskip : skipBlanks (c :: ds) = c :: ds :=
    skipBlanks_append blanks_nil hc
  rw [List.append_nil] at hread
  rw [ofChars?, hskip, hread]
  rfl

end Reading

end Bindable.Json
