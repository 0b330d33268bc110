import Bindable.Json.Reader
import Bindable.Source.Literal
import Mathlib.Data.Nat.Notation

/-! Regular string literals as the generated language reads them: an opening quote, characters that
stand for themselves and escapes, up to the closing quote. A quoted text is one such literal for
exactly that text, as long as it has neither a line separator nor a paragraph separator; these two
end a line and are not escaped. -/

namespace Bindable

/-- The UTF-16 units of a character. -/
def utf16 (c : Char) : List UInt16 :=
  if c.toNat < 0x10000 then [.ofNat c.toNat]
  else [.ofNat (0xD800 + (c.toNat - 0x10000) / 0x400),
    .ofNat (0xDC00 + (c.toNat - 0x10000) % 0x400)]

/-- A text as the value of a string. -/
def stringUnits (s : String) : List UInt16 := s.toList.flatMap utf16

def isLineEnd (c : Char) : Bool := c ∈ ['\n', '\r', '\u0085', '\u2028', '\u2029']

def isSeparator (c : Char) : Bool := c ∈ ['\u2028', '\u2029']

def simpleEscape? : Char → Option UInt16
  | '\'' => some 0x27
  | '"' => some 0x22
  | '\\' => some 0x5C
  | '0' => some 0x00
  | 'a' => some 0x07
  | 'b' => some 0x08
  | 'f' => some 0x0C
  | 'n' => some 0x0A
  | 'r' => some 0x0D
  | 't' => some 0x09
  | 'v' => some 0x0B
  | _ => none

/-- The value of what stands before the closing quote, and what follows it. The argument says which
characters end a line. -/
def elements? (endsLine : Char → Bool) : List Char → Option (List UInt16 × List Char)
  | '"' :: rest => some ([], rest)
  | '\\' :: 'u' :: a :: b :: c :: d :: rest => do
    let n ← Json.unit? a b c d
    let (us, rest) ← elements? endsLine rest
    return (.ofNat n :: us, rest)
  | '\\' :: c :: rest => do
    let u ← simpleEscape? c
    let (us, rest) ← elements? endsLine rest
    return (u :: us, rest)
  | c :: rest =>
    if c = '\\' ∨ endsLine c then none
    else do
      let (us, rest) ← elements? endsLine rest
      return (utf16 c ++ us, rest)
  | [] => none

/-- The regular string literal at the start of a text, by its value and what follows it. -/
def stringLiteral? (endsLine : Char → Bool) : List Char → Option (List UInt16 × List Char)
  | '"' :: rest => elements? endsLine rest
  | _ => none

section Units

theorem ofNat_eq_ofNat {n m : Nat} (hn : n < 65536) (hm : m < 65536)
    (h : UInt16.ofNat n = UInt16.ofNat m) : n = m := by
  have hnat := congrArg UInt16.toNat h
  rw [UInt16.toNat_ofNat', UInt16.toNat_ofNat'] at hnat
  omega

theorem isScalar_toNat (c : Char) : c.toNat < 0xD800 ∨ 0xDFFF < c.toNat ∧ c.toNat < 0x110000 :=
  c.valid

/-- No character's units begin another character's. -/
theorem utf16_append_inj {c d : Char} {us vs : List UInt16} (h : utf16 c ++ us = utf16 d ++ vs) :
    c = d ∧ us = vs := by
  have hc := isScalar_toNat c
  have hd := isScalar_toNat d
  suffices hsame : c.toNat = d.toNat by
    obtain rfl := Char.toNat_inj.mp hsame
    exact ⟨rfl, List.append_cancel_left h⟩
  rw [utf16, utf16] at h
  by_cases hlow : c.toNat < 0x10000 <;> by_cases hlow' : d.toNat < 0x10000
  · simp only [hlow, hlow', if_true, List.cons_append, List.cons.injEq] at h
    exact ofNat_eq_ofNat hlow hlow' h.1
  · simp only [hlow, hlow', if_true, if_false, List.cons_append, List.cons.injEq] at h
    have hhead := ofNat_eq_ofNat hlow (by omega) h.1
    omega
  · simp only [hlow, hlow', if_true, if_false, List.cons_append, List.cons.injEq] at h
    have hhead := ofNat_eq_ofNat (by omega) hlow' h.1
    omega
  · simp only [hlow, hlow', if_false, List.cons_append, List.cons.injEq] at h
    have hhigh := ofNat_eq_ofNat (by omega) (by omega) h.1
    have hrest := ofNat_eq_ofNat (by omega) (by omega) h.2.1
    omega

theorem flatMap_utf16_injective : Function.Injective (List.flatMap utf16) := by
  have hne : ∀ (c : Char) (us : List UInt16), utf16 c ++ us ≠ [] := by
    intro c us
    rw [utf16]
    split <;> simp
  intro cs
  induction cs with
  | nil =>
    intro ds h
    cases ds with
    | nil => rfl
    | cons d ds => exact absurd h.symm (hne d _)
  | cons c cs ih =>
    intro ds h
    cases ds with
    | nil => exact absurd h (hne c _)
    | cons d ds =>
      obtain ⟨rfl, hrest⟩ := utf16_append_inj h
      rw [ih hrest]

theorem stringUnits_eq_iff {s s' : String} : stringUnits s = stringUnits s' ↔ s = s' :=
  flatMap_utf16_injective.eq_iff.trans String.toList_inj

end Units

section Elements

variable {endsLine : Char → Bool} {c : Char} {rest : List Char}

theorem unit?_hex4 {n : Nat} (hn : n < 65536) :
    ∃ a b c d, hex4 n = [a, b, c, d] ∧ Json.unit? a b c d = some n := by
  have hdigit : ∀ k < 16, Json.hexValue? (upperHexDigit k) = some k := by decide
  refine ⟨_, _, _, _, rfl, ?_⟩
  simp only [Json.unit?, hdigit _ (Nat.mod_lt _ (by decide : 16 > 0)), Option.bind_eq_bind,
    Option.bind_some, Option.pure_def, Option.some_inj]
  omega

theorem elements?_simple {e : Char} {u : UInt16} (hu : e ≠ 'u') (h : simpleEscape? e = some u) :
    elements? endsLine ('\\' :: e :: rest) =
      (elements? endsLine rest).map fun p => (u :: p.1, p.2) := by
  rw [elements?, h]
  · cases elements? endsLine rest <;> rfl
  · exact fun _ _ _ _ _ he => absurd he hu

theorem elements?_hex4 {n : Nat} (hn : n < 65536) :
    elements? endsLine ('\\' :: 'u' :: hex4 n ++ rest) =
      (elements? endsLine rest).map fun p => (.ofNat n :: p.1, p.2) := by
  obtain ⟨a, b, c, d, hhex, hunit⟩ := unit?_hex4 hn
  rw [hhex]
  show elements? endsLine ('\\' :: 'u' :: a :: b :: c :: d :: rest) = _
  rw [elements?, hunit]
  cases elements? endsLine rest <;> rfl

theorem elements?_plain (hquote : c ≠ '"') (hback : c ≠ '\\') :
    elements? endsLine (c :: rest) =
      if endsLine c then none
      else (elements? endsLine rest).map fun p => (utf16 c ++ p.1, p.2) := by
  rw [elements?]
  · simp only [hback, false_or]
    split
    · rfl
    · cases elements? endsLine rest <;> rfl
  · exact hquote
  · exact fun _ _ _ _ _ hc => absurd hc hback
  · exact fun _ _ hc => absurd hc hback

def namedEscapes : List Char := ['"', '\\', '\n', '\r', '\t', '\x00']

theorem escapeChar_named : ∀ c ∈ namedEscapes, ∃ e u, Literal.escapeChar c = ['\\', e] ∧
    e ≠ 'u' ∧ simpleEscape? e = some u ∧ utf16 c = [u] := by
  intro c hc
  simp only [namedEscapes, List.mem_cons, List.not_mem_nil, or_false] at hc
  rcases hc with rfl | rfl | rfl | rfl | rfl | rfl
  · exact ⟨'"', 0x22, by decide⟩
  · exact ⟨'\\', 0x5C, by decide⟩
  · exact ⟨'n', 0x0A, by decide⟩
  · exact ⟨'r', 0x0D, by decide⟩
  · exact ⟨'t', 0x09, by decide⟩
  · exact ⟨'0', 0x00, by decide⟩

theorem escapeChar_eq (h : c ∉ namedEscapes) : Literal.escapeChar c =
    if Literal.isControl c then '\\' :: 'u' :: hex4 c.toNat else [c] := by
  simp only [namedEscapes, List.mem_cons, List.not_mem_nil, or_false, not_or] at h
  obtain ⟨hquote, hback, hn, hr, ht, hzero⟩ := h
  rw [Literal.escapeChar, if_neg hquote, if_neg hback, if_neg hn, if_neg hr, if_neg ht,
    if_neg hzero]

/-- Only a character that stands for itself can end the line. -/
theorem elements?_escapeChar (endsLine : Char → Bool) (c : Char) (rest : List Char) :
    elements? endsLine (Literal.escapeChar c ++ rest) =
      if endsLine c ∧ Literal.escapeChar c = [c] then none
      else (elements? endsLine rest).map fun p => (utf16 c ++ p.1, p.2) := by
  by_cases hnamed : c ∈ namedEscapes
  · obtain ⟨e, u, he, hu, hsimple, hunits⟩ := escapeChar_named c hnamed
    rw [he, hunits, if_neg (by simp)]
    exact elements?_simple hu hsimple
  rw [escapeChar_eq hnamed]
  by_cases hcontrol : Literal.isControl c
  · have hlow : c.toNat < 0x10000 := by
      simp only [Literal.isControl, Bool.or_eq_true, Bool.and_eq_true, decide_eq_true_eq]
        at hcontrol
      omega
    have hunits : utf16 c = [.ofNat c.toNat] := by rw [utf16, if_pos hlow]
    rw [if_pos hcontrol, hunits, if_neg (by simp)]
    exact elements?_hex4 hlow
  · have hquote : c ≠ '"' := by
      rintro rfl
      exact hnamed (by decide)
    have hback : c ≠ '\\' := by
      rintro rfl
      exact hnamed (by decide)
    rw [if_neg hcontrol, List.singleton_append, elements?_plain hquote hback]
    simp

theorem elements?_flatMap_escapeChar (endsLine : Char → Bool) (cs rest : List Char) :
    elements? endsLine (cs.flatMap Literal.escapeChar ++ '"' :: rest) =
      if cs.any fun c => endsLine c && Literal.escapeChar c = [c] then none
      else some (cs.flatMap utf16, rest) := by
  induction cs with
  | nil => simp [elements?]
  | cons c cs ih =>
    rw [List.flatMap_cons, List.append_assoc, elements?_escapeChar, ih]
    by_cases hc : endsLine c ∧ Literal.escapeChar c = [c]
    · simp [hc]
    · have hself : (endsLine c && decide (Literal.escapeChar c = [c])) = false := by simpa using hc
      simp only [if_neg hc, List.any_cons, hself, Bool.false_or]
      split <;> rfl

/-- Of the characters that end a line, the separators alone are not escaped. -/
theorem isLineEnd_unescaped_iff (c : Char) :
    isLineEnd c ∧ Literal.escapeChar c = [c] ↔ isSeparator c := by
  constructor
  · rintro ⟨hend, hself⟩
    simp only [isLineEnd, List.mem_cons, List.not_mem_nil, or_false, decide_eq_true_eq] at hend
    rcases hend with rfl | rfl | rfl | rfl | rfl
    · exact absurd hself (by decide)
    · exact absurd hself (by decide)
    · exact absurd hself (by decide)
    · decide
    · decide
  · intro h
    simp only [isSeparator, List.mem_cons, List.not_mem_nil, or_false, decide_eq_true_eq] at h
    rcases h with rfl | rfl <;> decide

end Elements

namespace Literal

theorem stringLiteral?_quote (endsLine : Char → Bool) (s : String) (rest : List Char) :
    stringLiteral? endsLine ((quote s).toList ++ rest) =
      if s.toList.any fun c => endsLine c && escapeChar c = [c] then none
      else some (stringUnits s, rest) := by
  have htext : (quote s).toList ++ rest =
      '"' :: (s.toList.flatMap escapeChar ++ '"' :: rest) := by
    simp [quote]
  rw [htext, stringLiteral?, elements?_flatMap_escapeChar, stringUnits]

/-- A rendered text is one string literal, whatever follows it, unless the text has a separator; no
other character is in the way. Its value is the text. -/
theorem stringLiteral?_render_string (s : String) :
    (∀ rest, stringLiteral? isLineEnd ((string s).render.toList ++ rest) =
      if s.toList.any isSeparator then none else some (stringUnits s, rest)) ∧
    (∀ rest, stringLiteral? (fun c => isLineEnd c && !isSeparator c)
      ((string s).render.toList ++ rest) = some (stringUnits s, rest)) ∧
    ∀ s', stringUnits s' = stringUnits s ↔ s' = s := by
  refine ⟨fun rest => ?_, fun rest => ?_, fun s' => stringUnits_eq_iff⟩
  · have hunescaped : (fun c => isLineEnd c && decide (escapeChar c = [c])) = isSeparator := by
      funext c
      rw [Bool.eq_iff_iff, Bool.and_eq_true, decide_eq_true_eq, isLineEnd_unescaped_iff]
    rw [render, stringLiteral?_quote, hunescaped]
  · rw [render, stringLiteral?_quote, if_neg]
    intro hany
    obtain ⟨c, -, hc⟩ := List.any_eq_true.mp hany
    simp only [Bool.and_eq_true, Bool.not_eq_true', decide_eq_true_eq] at hc
    have hseparator := (isLineEnd_unescaped_iff c).mp ⟨hc.1.1, hc.2⟩
    simp [hseparator] at hc

example : stringLiteral? isLineEnd (string "\u2028").render.toList = none := by decide

end Literal

end Bindable
