import Bindable.Proofs.Json.Grammar

/-! Both ways of writing a document give a text that stands for it, so that the document is read
back from what was written. -/

namespace Bindable.Json

section Writing

variable {items : List Json} {fields : List (Option String × Json)} {texts : List String}
  {separator : String} {gap final : List Char}

mutual

/-- Every number in the document has digits after its point. -/
def IsDecimal : Json → Prop
  | .number n => n.IsDecimal
  | .array items => ItemsAreDecimal items
  | .object fields => FieldsAreDecimal fields
  | _ => True

def ItemsAreDecimal : List Json → Prop
  | [] => True
  | item :: items => item.IsDecimal ∧ ItemsAreDecimal items

def FieldsAreDecimal : List (Option String × Json) → Prop
  | [] => True
  | (_, value) :: fields => value.IsDecimal ∧ FieldsAreDecimal fields

end

def SpellsField (p : Option String × Json) (text : String) : Prop :=
  ∃ colon cs, Blanks colon ∧ Spells p.2 cs ∧
    text.toList = (renderText p.1).toList ++ ':' :: (colon ++ cs)

theorem spellsItems_intercalate (hseparator : separator.toList = ',' :: gap) (hgap : Blanks gap)
    (hfinal : Blanks final) (hne : items ≠ [])
    (h : List.Forall₂ (fun j text => Spells j text.toList) items texts) :
    SpellsItems items ((separator.intercalate texts).toList ++ (final ++ [']'])) := by
  induction h with
  | nil => contradiction
  | @cons j text items texts hj h ih =>
    cases h with
    | nil =>
      rw [String.intercalate_singleton]
      exact .last hj hfinal
    | cons hk h =>
      have hmore := ih (by simp)
      rw [String.intercalate_cons_cons]
      simp only [String.toList_append, hseparator, List.append_assoc, List.cons_append]
      exact .cons hj hgap hmore

theorem spellsFields_intercalate (hseparator : separator.toList = ',' :: gap) (hgap : Blanks gap)
    (hfinal : Blanks final) (hne : fields ≠ []) (h : List.Forall₂ SpellsField fields texts) :
    SpellsFields fields ((separator.intercalate texts).toList ++ (final ++ ['\x7d'])) := by
  induction h with
  | nil => contradiction
  | @cons p text fields texts hp h ih =>
    obtain ⟨key, j⟩ := p
    obtain ⟨colon, cs, hcolon, hj, htext⟩ := hp
    cases h with
    | nil =>
      rw [String.intercalate_singleton, htext, List.append_assoc, List.cons_append,
        List.append_assoc]
      exact .last key hcolon hj hfinal
    | cons hk h =>
      have hmore := ih (by simp)
      rw [String.intercalate_cons_cons]
      simp only [String.toList_append, htext, hseparator, List.append_assoc, List.cons_append]
      exact .cons key hcolon hj hgap hmore

theorem spells_array_line (h : List.Forall₂ (fun j text => Spells j text.toList) items texts) :
    Spells (.array items) ("[" ++ ",".intercalate texts ++ "]").toList := by
  cases h with
  | nil => exact .emptyArray
  | cons hj h =>
    rw [String.toList_append, String.toList_append, List.append_assoc]
    exact .array blanks_nil
      (spellsItems_intercalate rfl blanks_nil blanks_nil (by simp) (.cons hj h))

theorem spells_object_line (h : List.Forall₂ SpellsField fields texts) :
    Spells (.object fields) ("\x7b" ++ ",".intercalate texts ++ "\x7d").toList := by
  cases h with
  | nil => exact .emptyObject
  | cons hp h =>
    rw [String.toList_append, String.toList_append, List.append_assoc]
    exact .object blanks_nil
      (spellsFields_intercalate rfl blanks_nil blanks_nil (by simp) (.cons hp h))

theorem blanks_indentation (depth : Nat) : Blanks (indentation depth).toList := by
  induction depth with
  | zero => exact blanks_nil
  | succ depth ih =>
    have hs : (indentation (depth + 1)).toList = ' ' :: ' ' :: (indentation depth).toList := by
      rw [indentation, List.replicate_succ, String.join_cons, String.toList_append]
      rfl
    intro c hc
    rw [hs] at hc
    rcases List.mem_cons.mp hc with rfl | hc
    · decide
    rcases List.mem_cons.mp hc with rfl | hc
    · decide
    · exact ih c hc

theorem blanks_newLine (depth : Nat) : Blanks ('\n' :: (indentation depth).toList) := by
  intro c hc
  rcases List.mem_cons.mp hc with rfl | hc
  · decide
  · exact blanks_indentation depth c hc

theorem intercalate_map_append (separator before : String) (hne : texts ≠ []) :
    separator.intercalate (texts.map (before ++ ·)) =
      before ++ (separator ++ before).intercalate texts := by
  induction texts with
  | nil => contradiction
  | cons text texts ih =>
    cases texts with
    | nil => simp
    | cons next texts =>
      rw [List.map_cons, List.map_cons, String.intercalate_cons_cons, ← List.map_cons,
        ih (by simp), String.intercalate_cons_cons]
      simp only [String.append_assoc]

theorem toList_block (depth : Nat) {opening closing : String} {o c : Char}
    (ho : opening.toList = [o]) (hc : closing.toList = [c]) (hne : texts ≠ []) :
    (block depth opening closing texts).toList =
      o :: ('\n' :: (indentation (depth + 1)).toList ++
        (((",\n" ++ indentation (depth + 1)).intercalate texts).toList ++
          ('\n' :: (indentation depth).toList ++ [c]))) := by
  have hblock : block depth opening closing texts =
      opening ++ "\n" ++ ",\n".intercalate (texts.map (indentation (depth + 1) ++ ·)) ++ "\n" ++
        indentation depth ++ closing := by
    cases texts with
    | nil => contradiction
    | cons text texts => rfl
  rw [hblock, intercalate_map_append _ _ hne]
  simp only [String.toList_append, ho, hc, List.append_assoc]
  rfl

theorem spells_array_block (depth : Nat)
    (h : List.Forall₂ (fun j text => Spells j text.toList) items texts) :
    Spells (.array items) (block depth "[" "]" texts).toList := by
  cases h with
  | nil =>
    rw [block]
    exact .emptyArray
  | cons hj h =>
    rw [toList_block depth (o := '[') (c := ']') rfl rfl (by simp)]
    exact .array (blanks_newLine _) (spellsItems_intercalate
      (by rw [String.toList_append]; rfl) (blanks_newLine _) (blanks_newLine _) (by simp)
      (.cons hj h))

theorem spells_object_block (depth : Nat) (h : List.Forall₂ SpellsField fields texts) :
    Spells (.object fields) (block depth "\x7b" "\x7d" texts).toList := by
  cases h with
  | nil =>
    rw [block]
    exact .emptyObject
  | cons hp h =>
    rw [toList_block depth (o := '\x7b') (c := '\x7d') rfl rfl (by simp)]
    exact .object (blanks_newLine _) (spellsFields_intercalate
      (by rw [String.toList_append]; rfl) (blanks_newLine _) (blanks_newLine _) (by simp)
      (.cons hp h))

mutual

theorem spells_render : (j : Json) → j.IsDecimal → Spells j j.render.toList
  | .null, _ => .null
  | .bool b, _ => by cases b <;> exact .bool _
  | .number _, h => .number h
  | .string s, _ => .string s
  | .array items, h => spells_array_line (spells_renderItems items h)
  | .object fields, h => spells_object_line (spells_renderFields fields h)

theorem spells_renderItems : (items : List Json) → ItemsAreDecimal items →
    List.Forall₂ (fun j text => Spells j text.toList) items (renderItems items)
  | [], _ => .nil
  | j :: items, h => .cons (spells_render j h.1) (spells_renderItems items h.2)

theorem spells_renderFields : (fields : List (Option String × Json)) → FieldsAreDecimal fields →
    List.Forall₂ SpellsField fields (renderFields fields)
  | [], _ => .nil
  | (key, j) :: fields, h =>
    .cons ⟨[], j.render.toList, blanks_nil, spells_render j h.1, by
      rw [String.toList_append, String.toList_append, List.append_assoc]; rfl⟩
      (spells_renderFields fields h.2)

end

mutual

theorem spells_pretty (depth : Nat) : (j : Json) → j.IsDecimal → Spells j (j.pretty depth).toList
  | .null, _ => by rw [pretty]; exact .null
  | .bool b, _ => by cases b <;> rw [pretty] <;> exact .bool _
  | .number _, h => .number h
  | .string s, _ => .string s
  | .array items, h => spells_array_block depth (spells_prettyItems (depth + 1) items h)
  | .object fields, h => spells_object_block depth (spells_prettyFields (depth + 1) fields h)

theorem spells_prettyItems (depth : Nat) : (items : List Json) → ItemsAreDecimal items →
    List.Forall₂ (fun j text => Spells j text.toList) items (prettyItems depth items)
  | [], _ => .nil
  | j :: items, h => .cons (spells_pretty depth j h.1) (spells_prettyItems depth items h.2)

theorem spells_prettyFields (depth : Nat) : (fields : List (Option String × Json)) →
    FieldsAreDecimal fields → List.Forall₂ SpellsField fields (prettyFields depth fields)
  | [], _ => .nil
  | (key, j) :: fields, h =>
    .cons ⟨[' '], (j.pretty depth).toList, by simp [Blanks, isBlank], spells_pretty depth j h.1, by
      rw [String.toList_append, String.toList_append, List.append_assoc]; rfl⟩
      (spells_prettyFields depth fields h.2)

end

theorem parse?_render {j : Json} (h : j.IsDecimal) : parse? j.render = some j :=
  ofChars?_of_spells (spells_render j h)

theorem parse?_pretty {j : Json} (h : j.IsDecimal) (depth : Nat) :
    parse? (j.pretty depth) = some j :=
  ofChars?_of_spells (spells_pretty depth j h)

end Writing

end Bindable.Json
