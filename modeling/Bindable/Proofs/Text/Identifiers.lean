import Bindable.Text.Code
import Bindable.Text.Identifier

/-! Words of letters, numbers and underscores. An identifier is a word, perhaps after an escaping
sign; a scan of a body knows the words in ASCII only. -/

namespace Bindable.Text

def isAscii (c : Char) : Bool := c.toNat < 0x80

def isAsciiWord : List Char → Bool
  | [] => false
  | c :: cs => isAsciiStart c && cs.all isAsciiPart

section Words

variable {cs ds : List Char} {c : Char}

theorem isIdentifierPart_of_start (h : isIdentifierStart c) : isIdentifierPart c := by
  rw [isIdentifierStart, Bool.or_eq_true] at h
  rcases h with h | h <;> simp [isIdentifierPart, h]

theorem all_of_isWord (h : isWord cs) : cs.all isIdentifierPart := by
  cases cs with
  | nil => rfl
  | cons c cs =>
    rw [isWord, Bool.and_eq_true] at h
    rw [List.all_cons, isIdentifierPart_of_start h.1, h.2]
    rfl

theorem isWord_append (h : isWord cs) (hds : ds.all isIdentifierPart) : isWord (cs ++ ds) := by
  cases cs with
  | nil => cases h
  | cons c cs =>
    rw [isWord, Bool.and_eq_true] at h
    rw [List.cons_append, isWord, h.1, List.all_append, h.2, hds]
    rfl

theorem isIdentifierChars_eq (h : cs.head? ≠ some '@') : isIdentifierChars cs = isWord cs := by
  cases cs with
  | nil => rfl
  | cons c cs =>
    rw [isIdentifierChars]
    rintro ds ⟨⟩
    exact h rfl

theorem isIdentifierChars_of_isWord (h : isWord cs) : isIdentifierChars cs := by
  have hhead : cs.head? ≠ some '@' := by
    intro hhead
    obtain ⟨ds, rfl⟩ := List.head?_eq_some_iff.mp hhead
    rw [isWord, Bool.and_eq_true] at h
    exact absurd h.1 (by decide +kernel)
  rwa [isIdentifierChars_eq hhead]

theorem isIdentifier_of_attachedName? {getter name : String}
    (h : attachedName? getter = some name) : isIdentifier name := by
  rw [attachedName?] at h
  split at h
  case h_1 rest _ =>
    split at h
    case isTrue hrest =>
      obtain rfl := Option.some_inj.mp h
      rwa [isIdentifier, String.toList_ofList]
    case isFalse => cases h
  case h_2 => cases h

theorem not_isIdentifierChars (h : cs.head? ≠ some '@') (hmem : '@' ∈ cs) :
    ¬ isIdentifierChars cs := by
  rw [isIdentifierChars_eq h]
  intro hword
  have hpart : isIdentifierPart '@' := List.all_eq_true.mp (all_of_isWord hword) '@' hmem
  exact absurd hpart (by decide +kernel)

end Words

section Ascii

variable {c : Char}

theorem isAsciiPart_of_start (h : isAsciiStart c) : isAsciiPart c := by
  simp only [isAsciiStart, isAsciiPart, Char.isAlphanum, Bool.or_eq_true] at h ⊢
  exact h.imp_left .inl

theorem isAscii_of_isAsciiPart (h : isAsciiPart c) : isAscii c := by
  rw [isAsciiPart, Bool.or_eq_true, decide_eq_true_eq] at h
  rw [isAscii, decide_eq_true_eq]
  rcases h with h | rfl
  · have hranges : ((decide (65 ≤ c.val ∧ c.val ≤ 90) ||
        decide (97 ≤ c.val) && decide (c.val ≤ 122)) ||
        decide (48 ≤ c.val) && decide (c.val ≤ 57)) = true := h
    simp only [Bool.or_eq_true, Bool.and_eq_true, decide_eq_true_eq,
      UInt32.le_iff_toNat_le, UInt32.reduceToNat] at hranges
    have hc : c.toNat = c.val.toNat := rfl
    omega
  · decide

theorem isAsciiStart_eq (c : Char) : isAsciiStart c = (isIdentifierStart c && isAscii c) := by
  cases hc : isAscii c with
  | true =>
    have hlt : c.toNat < 0x80 := by simpa [isAscii] using hc
    rw [Bool.and_true, isAsciiStart, isIdentifierStart, isLetter, if_pos hlt]
  | false =>
    rw [Bool.and_false, Bool.eq_false_iff]
    intro hstart
    rw [isAscii_of_isAsciiPart (isAsciiPart_of_start hstart)] at hc
    cases hc

theorem isAsciiPart_eq (c : Char) : isAsciiPart c = (isIdentifierPart c && isAscii c) := by
  cases hc : isAscii c with
  | true =>
    have hlt : c.toNat < 0x80 := by simpa [isAscii] using hc
    rw [Bool.and_true, isAsciiPart, isIdentifierPart, isLetter, isNumber, if_pos hlt, if_pos hlt,
      Char.isAlphanum]
  | false =>
    rw [Bool.and_false, Bool.eq_false_iff]
    intro hpart
    rw [isAscii_of_isAsciiPart hpart] at hc
    cases hc

/-- Of the words of all scripts the scan knows those in ASCII. -/
theorem isAsciiWord_eq (cs : List Char) : isAsciiWord cs = (isWord cs && cs.all isAscii) := by
  cases cs with
  | nil => rfl
  | cons c cs =>
    have hrest : cs.all isAsciiPart = (cs.all isIdentifierPart && cs.all isAscii) := by
      rw [Bool.eq_iff_iff]
      simp only [Bool.and_eq_true, List.all_eq_true, isAsciiPart_eq, forall_and]
    rw [isAsciiWord, isWord, isAsciiStart_eq, hrest, List.all_cons]
    cases isIdentifierStart c <;> cases isAscii c <;> simp

end Ascii

end Bindable.Text
