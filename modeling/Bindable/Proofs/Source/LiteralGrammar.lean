import Bindable.Proofs.Source.StringLiteral

/-! The grammar of regular string literals, with every escape that the language has. A literal is
never shorter than its value, and as long as its value only where nothing is escaped. -/

namespace Bindable

/-- The number that hexadecimal digits are the numeral of. -/
def hexNumber? (ds : List Char) : Option Nat :=
  ds.foldlM (fun n c => (Json.hexValue? c).map (16 * n + ·)) 0

/-- The character stands for itself. -/
def IsPlain (c : Char) : Prop := c ≠ '"' ∧ c ≠ '\\' ∧ isLineEnd c = false

instance : DecidablePred IsPlain := fun _ => inferInstanceAs (Decidable (_ ∧ _ ∧ _))

/-- A character or an escape between the quotes, and its units. -/
inductive LiteralElement : List Char → List UInt16 → Prop where
  | plain {c : Char} (h : IsPlain c) : LiteralElement [c] (utf16 c)
  | simple {e : Char} {u : UInt16} (h : simpleEscape? e = some u) : LiteralElement ['\\', e] [u]
  | unit {mark : Char} {ds : List Char} {n : Nat}
      (hmark : mark = 'x' ∧ 1 ≤ ds.length ∧ ds.length ≤ 4 ∨ mark = 'u' ∧ ds.length = 4 ∨
        mark = 'U' ∧ ds.length = 8)
      (hn : hexNumber? ds = some n) (hlow : n < 0x10000) :
      LiteralElement ('\\' :: mark :: ds) [.ofNat n]
  | scalar {ds : List Char} {c : Char} (hlength : ds.length = 8)
      (hc : hexNumber? ds = some c.toNat) : LiteralElement ('\\' :: 'U' :: ds) (utf16 c)

inductive LiteralElements : List Char → List UInt16 → Prop where
  | nil : LiteralElements [] []
  | cons {cs body : List Char} {us vs : List UInt16} (hfirst : LiteralElement cs us)
      (hrest : LiteralElements body vs) : LiteralElements (cs ++ body) (us ++ vs)

/-- The text is a regular string literal for the value. -/
def IsStringLiteral (text value : String) : Prop :=
  ∃ body, text.toList = '"' :: body ++ ['"'] ∧ LiteralElements body (stringUnits value)

section Lengths

variable {cs body : List Char} {us : List UInt16}

theorem length_utf16_pos (c : Char) : 0 < (utf16 c).length := by
  rw [utf16]
  split <;> exact Nat.succ_pos _

theorem length_utf16_le (c : Char) : (utf16 c).length ≤ 2 := by
  rw [utf16]
  split <;> simp

theorem length_le_flatMap_utf16 (cs : List Char) : cs.length ≤ (cs.flatMap utf16).length := by
  induction cs with
  | nil => exact Nat.le_refl 0
  | cons c cs ih =>
    have hpos := length_utf16_pos c
    rw [List.flatMap_cons, List.length_append, List.length_cons]
    omega

theorem LiteralElement.plain_or_shorter (h : LiteralElement cs us) :
    (∃ c, IsPlain c ∧ cs = [c] ∧ us = utf16 c) ∨ us.length < (cs.flatMap utf16).length := by
  have hlength := length_le_flatMap_utf16 cs
  cases h with
  | plain h => exact .inl ⟨_, h, rfl, rfl⟩
  | simple =>
    rw [List.length_cons, List.length_singleton] at hlength
    exact .inr hlength
  | unit =>
    rw [List.length_cons, List.length_cons] at hlength
    rw [List.length_singleton]
    exact .inr (by omega)
  | @scalar ds c hdigits =>
    have hunits := length_utf16_le c
    rw [List.length_cons, List.length_cons, hdigits] at hlength
    exact .inr (by omega)

theorem LiteralElements.plain_or_shorter (h : LiteralElements body us) :
    (∀ c ∈ body, IsPlain c) ∧ us = body.flatMap utf16 ∨
      us.length < (body.flatMap utf16).length := by
  induction h with
  | nil => exact .inl ⟨by simp, rfl⟩
  | cons hfirst _ ih =>
    rw [List.flatMap_append, List.length_append, List.length_append]
    rcases hfirst.plain_or_shorter with ⟨c, hc, rfl, rfl⟩ | hshorter
    · rw [List.flatMap_singleton]
      rcases ih with ⟨hplain, rfl⟩ | hshorter
      · exact .inl ⟨List.forall_mem_cons.mpr ⟨hc, hplain⟩, rfl⟩
      · exact .inr (by omega)
    · rcases ih with ⟨-, rfl⟩ | hrest
      · exact .inr (by omega)
      · exact .inr (by omega)

theorem literalElements_of_isPlain (h : ∀ c ∈ body, IsPlain c) :
    LiteralElements body (body.flatMap utf16) := by
  induction body with
  | nil => exact .nil
  | cons c body ih =>
    obtain ⟨hc, hbody⟩ := List.forall_mem_cons.mp h
    exact .cons (.plain hc) (ih hbody)

end Lengths

end Bindable
