import Bindable.Json.Reader
import Bindable.Json.Writer
import Mathlib.Data.List.TakeDrop

/-! Numbers and strings are read as they were written. A number is read up to the first character
that does not belong to it, a string up to its closing quote. -/

namespace Bindable

/-- The digits after the point are digits. -/
def Numeral.IsDecimal (n : Numeral) : Prop := ∀ d ∈ n.fraction, d < 10

namespace Json

section Numbers

def StopsDigits (rest : List Char) : Prop := ∀ c ∈ rest.head?, c.isDigit = false

structure EndsNumeral (c : Char) : Prop where
  digit : c.isDigit = false
  point : c ≠ '.'
  lower : c ≠ 'e'
  upper : c ≠ 'E'

instance : DecidablePred EndsNumeral := fun c =>
  decidable_of_iff (c.isDigit = false ∧ c ≠ '.' ∧ c ≠ 'e' ∧ c ≠ 'E')
    ⟨fun ⟨hdigit, hpoint, hlower, hupper⟩ => ⟨hdigit, hpoint, hlower, hupper⟩,
      fun h => ⟨h.digit, h.point, h.lower, h.upper⟩⟩

/-- The text goes on with nothing that belongs to a number. -/
def StopsNumeral (rest : List Char) : Prop := ∀ c ∈ rest.head?, EndsNumeral c

theorem StopsNumeral.stopsDigits {rest : List Char} (h : StopsNumeral rest) : StopsDigits rest :=
  fun c hc => (h c hc).digit

theorem span_append {p : Char → Bool} {cs rest : List Char} (hcs : ∀ c ∈ cs, p c = true)
    (hrest : ∀ c ∈ rest.head?, p c = false) : (cs ++ rest).span p = (cs, rest) := by
  have ht : rest.takeWhile p = [] := by
    cases rest with
    | nil => rfl
    | cons c rest => simp [hrest c rfl]
  have hd : rest.dropWhile p = rest := by
    cases rest with
    | nil => rfl
    | cons c rest => simp [hrest c rfl]
  rw [List.span_eq_takeWhile_dropWhile, List.takeWhile_append_of_pos hcs,
    List.dropWhile_append_of_pos hcs, ht, hd, List.append_nil]

theorem digits?_append {cs rest : List Char} (hne : cs ≠ []) (hcs : ∀ c ∈ cs, c.isDigit = true)
    (hrest : StopsDigits rest) : digits? (cs ++ rest) = some (cs.map digitValue, rest) := by
  obtain ⟨c, cs, rfl⟩ := List.exists_cons_of_ne_nil hne
  rw [digits?, span_append hcs hrest]

theorem isDigit_of_mem_toDigits {n : Nat} {c : Char} (hc : c ∈ Nat.toDigits 10 n) :
    c.isDigit = true :=
  Nat.isDigit_of_mem_toDigits (by decide) (by decide) hc

theorem exists_toDigits_eq (n : Nat) :
    ∃ c cs, Nat.toDigits 10 n = c :: cs ∧ c.isDigit = true := by
  obtain ⟨c, cs, hc⟩ := List.exists_cons_of_ne_nil (Nat.toDigits_ne_nil (n := n) (b := 10))
  exact ⟨c, cs, hc, isDigit_of_mem_toDigits (hc ▸ List.mem_cons_self)⟩

theorem valueOfDigits_toDigits (n : Nat) :
    valueOfDigits ((Nat.toDigits 10 n).map digitValue) = n := by
  rw [valueOfDigits, List.foldl_map]
  exact Nat.ofDigitChars_ten_toDigits

theorem digits?_toDigits (n : Nat) {rest : List Char} (hrest : StopsDigits rest) :
    digits? (Nat.toDigits 10 n ++ rest) = some ((Nat.toDigits 10 n).map digitValue, rest) :=
  digits?_append Nat.toDigits_ne_nil (fun _ => isDigit_of_mem_toDigits) hrest

theorem toDigits_head?_ne {n : Nat} (hn : n ≠ 0) : (Nat.toDigits 10 n).head? ≠ some '0' := by
  induction n using Nat.base_induction 10 (by decide) with
  | single m hm =>
    rw [Nat.toDigits_of_lt_base hm]
    have : ∀ m < 10, m ≠ 0 → [m.digitChar].head? ≠ some '0' := by decide
    exact this m hm hn
  | digit m k hk hm ih =>
    rw [← Nat.toDigits_append_toDigits (by decide) hm hk, List.head?_append]
    obtain ⟨c, cs, hc, -⟩ := exists_toDigits_eq m
    have ih := ih (by omega)
    rw [hc] at ih ⊢
    simpa using ih

theorem whole?_toDigits (n : Nat) {rest : List Char} (hrest : StopsDigits rest) :
    whole? (Nat.toDigits 10 n ++ rest) = some (n, rest) := by
  by_cases hn : n = 0
  · subst hn
    rw [Nat.toDigits_zero]
    rfl
  have hd := digits?_toDigits n hrest
  have hv := valueOfDigits_toDigits n
  have hz := toDigits_head?_ne hn
  obtain ⟨c, cs, hc, -⟩ := exists_toDigits_eq n
  rw [hc] at hd hv hz ⊢
  have hc0 : c ≠ '0' := by simpa using hz
  rw [List.cons_append] at hd ⊢
  rw [whole?, hd]
  · simp only [Option.map_some, hv]
  · rintro _ ⟨⟩
    exact hc0 rfl

def fractionChars (fraction : List Nat) : List Char :=
  if fraction = [] then [] else '.' :: fraction.map Nat.digitChar

def exponentChars : Option Int → List Char
  | none => []
  | some e => 'e' :: (toString e).toList

theorem fraction?_append {fraction : List Nat} (hf : ∀ d ∈ fraction, d < 10) {rest : List Char}
    (hrest : StopsDigits rest) (hpoint : rest.head? ≠ some '.') :
    fraction? (fractionChars fraction ++ rest) = some (fraction, rest) := by
  by_cases hn : fraction = []
  · subst hn
    cases rest with
    | nil => rfl
    | cons c rest =>
      have hc : c ≠ '.' := by simpa using hpoint
      simp [fractionChars, fraction?, hc]
  have hdigits : ∀ c ∈ fraction.map Nat.digitChar, c.isDigit = true := by
    intro c hc
    obtain ⟨d, hd, rfl⟩ := List.mem_map.mp hc
    have : ∀ d < 10, d.digitChar.isDigit = true := by decide
    exact this d (hf d hd)
  have hvalues : (fraction.map Nat.digitChar).map digitValue = fraction := by
    rw [List.map_map]
    have he : ∀ d ∈ fraction, (digitValue ∘ Nat.digitChar) d = id d :=
      fun d hd => Nat.toNat_digitChar_sub_48_of_lt_ten (hf d hd)
    rw [List.map_congr_left he, List.map_id]
  rw [fractionChars, if_neg hn, List.cons_append, fraction?,
    digits?_append (by simpa using hn) hdigits hrest, hvalues]

theorem toList_toString_int (e : Int) :
    (toString e).toList = (if e < 0 then ['-'] else []) ++ Nat.toDigits 10 e.natAbs := by
  rw [Int.toString_eq_repr, Int.repr_eq_if]
  by_cases h : 0 ≤ e
  · have hn : e.toNat = e.natAbs := by omega
    rw [if_pos h, if_neg (by omega), Nat.toList_repr, hn]
    rfl
  · have hn : (-e).toNat = e.natAbs := by omega
    rw [if_neg h, if_pos (by omega), String.toList_append, Nat.toList_repr, hn]
    rfl

theorem ne_of_isDigit {c d : Char} (hc : c.isDigit = true) (hd : d.isDigit = false) : c ≠ d := by
  rintro rfl
  rw [hc] at hd
  contradiction

theorem exponent?_negative (cs : List Char) :
    exponent? ('e' :: '-' :: cs) =
      (digits? cs).map fun p => (some (-(valueOfDigits p.1 : Int)), p.2) := by
  simp [exponent?]

theorem exponent?_natural {c : Char} (hc : c.isDigit = true) (cs : List Char) :
    exponent? ('e' :: c :: cs) =
      (digits? (c :: cs)).map fun p => (some (valueOfDigits p.1 : Int), p.2) := by
  have hplus : c ≠ '+' := ne_of_isDigit hc (by decide)
  have hminus : c ≠ '-' := ne_of_isDigit hc (by decide)
  simp [exponent?, hplus, hminus]

theorem exponent?_append (exponent : Option Int) {rest : List Char} (hrest : StopsNumeral rest) :
    exponent? (exponentChars exponent ++ rest) = some (exponent, rest) := by
  cases exponent with
  | none =>
    cases rest with
    | nil => rfl
    | cons c rest =>
      have hc : ¬(c = 'e' ∨ c = 'E') := not_or.mpr ⟨(hrest c rfl).lower, (hrest c rfl).upper⟩
      simp only [exponentChars, List.nil_append, exponent?, if_neg hc]
  | some e =>
    have hd := digits?_toDigits e.natAbs hrest.stopsDigits
    have hv := valueOfDigits_toDigits e.natAbs
    rw [exponentChars, toList_toString_int, List.cons_append]
    by_cases h : e < 0
    · have he : -(e.natAbs : Int) = e := by omega
      rw [if_pos h, List.singleton_append, List.cons_append, exponent?_negative, hd,
        Option.map_some, hv, he]
    · have he : (e.natAbs : Int) = e := by omega
      rw [if_neg h, List.nil_append]
      obtain ⟨c, cs, hc, hdigit⟩ := exists_toDigits_eq e.natAbs
      rw [hc, List.cons_append] at hd ⊢
      rw [exponent?_natural hdigit, hd, Option.map_some, ← hc, hv, he]

theorem toList_join_digits {fraction : List Nat} (hf : ∀ d ∈ fraction, d < 10) :
    (String.join (fraction.map fun d => toString d)).toList = fraction.map Nat.digitChar := by
  induction fraction with
  | nil => rfl
  | cons d fraction ih =>
    have hd : (toString d).toList = [d.digitChar] := by
      rw [Nat.toString_eq_repr, Nat.toList_repr, Nat.toDigits_of_lt_base (hf d List.mem_cons_self)]
    rw [List.map_cons, String.join_cons, String.toList_append, hd,
      ih fun c hc => hf c (List.mem_cons_of_mem _ hc)]
    rfl

theorem toList_render_numeral {n : Numeral} (h : n.IsDecimal) :
    n.render.toList = (if n.negative then ['-'] else []) ++ (Nat.toDigits 10 n.whole ++
      (fractionChars n.fraction ++ exponentChars n.exponent)) := by
  obtain ⟨negative, whole, fraction, exponent⟩ := n
  have hsign : (if negative then "-" else "").toList = if negative then ['-'] else [] := by
    cases negative <;> rfl
  have hfraction : (if fraction = [] then "" else
      "." ++ String.join (fraction.map fun d => toString d)).toList = fractionChars fraction := by
    by_cases hn : fraction = []
    · rw [fractionChars, if_pos hn, if_pos hn]
      rfl
    · rw [fractionChars, if_neg hn, if_neg hn, String.toList_append, toList_join_digits h]
      rfl
  have hwhole : (toString whole).toList = Nat.toDigits 10 whole := Nat.toList_repr
  cases exponent with
  | none =>
    simp only [Numeral.render, String.toList_append, hsign, hfraction, hwhole, exponentChars,
      List.append_assoc]
    rfl
  | some e =>
    simp only [Numeral.render, String.toList_append, hsign, hfraction, hwhole, exponentChars,
      List.append_assoc]
    rfl

theorem exists_render_numeral_eq {n : Numeral} (h : n.IsDecimal) :
    ∃ c cs, n.render.toList = c :: cs ∧ (c = '-' ∨ c.isDigit = true) := by
  rw [toList_render_numeral h]
  cases n.negative with
  | true => exact ⟨_, _, rfl, .inl rfl⟩
  | false =>
    obtain ⟨c, cs, hc, hdigit⟩ := exists_toDigits_eq n.whole
    exact ⟨c, _, by rw [hc]; rfl, .inr hdigit⟩

theorem numeral?_sign (negative : Bool) {cs : List Char} (h : cs.head? ≠ some '-') :
    numeral? ((if negative then ['-'] else []) ++ cs) = (do
      let (whole, cs) ← whole? cs
      let (fraction, cs) ← fraction? cs
      let (exponent, cs) ← exponent? cs
      return ({ negative, whole, fraction, exponent }, cs)) := by
  cases negative with
  | true => rfl
  | false =>
    cases cs with
    | nil => rfl
    | cons c cs =>
      have hc : c ≠ '-' := by simpa using h
      simp [numeral?, hc]

theorem StopsNumeral.exponentChars {rest : List Char} (h : StopsNumeral rest)
    (exponent : Option Int) :
    StopsDigits (exponentChars exponent ++ rest) ∧
      (exponentChars exponent ++ rest).head? ≠ some '.' := by
  cases exponent with
  | none => exact ⟨h.stopsDigits, fun hp => (h '.' hp).point rfl⟩
  | some e =>
    refine ⟨fun c hc => ?_, by simp [Json.exponentChars]⟩
    obtain rfl : 'e' = c := by simpa [Json.exponentChars] using hc
    decide

theorem StopsDigits.fractionChars {rest : List Char} (h : StopsDigits rest) (fraction : List Nat) :
    StopsDigits (fractionChars fraction ++ rest) := by
  by_cases hn : fraction = []
  · rw [Json.fractionChars, if_pos hn]
    exact h
  · rw [Json.fractionChars, if_neg hn]
    intro c hc
    obtain rfl : '.' = c := by simpa using hc
    decide

theorem numeral?_render {n : Numeral} (h : n.IsDecimal) {rest : List Char}
    (hrest : StopsNumeral rest) : numeral? (n.render.toList ++ rest) = some (n, rest) := by
  obtain ⟨negative, whole, fraction, exponent⟩ := n
  obtain ⟨hdigits, hpoint⟩ := hrest.exponentChars exponent
  have he := exponent?_append exponent hrest
  have hf := fraction?_append h hdigits hpoint
  have hw := whole?_toDigits whole (hdigits.fractionChars fraction)
  have hminus : (Nat.toDigits 10 whole ++ (fractionChars fraction ++
      (exponentChars exponent ++ rest))).head? ≠ some '-' := by
    obtain ⟨c, cs, hc, hdigit⟩ := exists_toDigits_eq whole
    rw [hc]
    simpa using ne_of_isDigit hdigit (by decide)
  rw [toList_render_numeral h]
  simp only [List.append_assoc]
  rw [numeral?_sign negative hminus, hw]
  simp only [Option.bind_eq_bind, Option.bind_some]
  rw [hf]
  simp only [Option.bind_some]
  rw [he]
  rfl

end Numbers

section Strings

/-- A control character without an escape of its own is given by number. -/
def pieceOf (c : Char) : Piece :=
  if c.toNat < 0x20 ∧ c ∉ ['\x08', '\x0c', '\n', '\r', '\t'] then .unit c.toNat else .char c

theorem unit?_control : ∀ n < 32,
    unit? '0' '0' (hexDigit (n / 16)) (hexDigit (n % 16)) = some n := by
  decide

theorem pieces?_unit {a b c d : Char} {n : Nat} (h : unit? a b c d = some n) (rest : List Char) :
    pieces? ('\\' :: 'u' :: a :: b :: c :: d :: rest) =
      (pieces? rest).map fun p => (.unit n :: p.1, p.2) := by
  rw [pieces?, h]
  cases pieces? rest <;> rfl

theorem pieces?_short {c e : Char} (hu : c ≠ 'u') (h : shortEscape? c = some e)
    (rest : List Char) :
    pieces? ('\\' :: c :: rest) = (pieces? rest).map fun p => (.char e :: p.1, p.2) := by
  rw [pieces?, h]
  · cases pieces? rest <;> rfl
  · exact fun _ _ _ _ _ hc => absurd hc hu

theorem pieces?_plain {c : Char} (hquote : c ≠ '"') (hback : c ≠ '\\') (h : ¬c.toNat < 0x20)
    (rest : List Char) :
    pieces? (c :: rest) = (pieces? rest).map fun p => (.char c :: p.1, p.2) := by
  rw [pieces?, if_neg h]
  · cases pieces? rest <;> rfl
  · exact hquote
  · exact fun _ _ _ _ _ hc => absurd hc hback
  · exact fun _ _ hc => absurd hc hback

def shortEscaped : List Char := ['"', '\\', '\x08', '\x0c', '\n', '\r', '\t']

theorem escape_short : ∀ c ∈ shortEscaped,
    ∃ d, escape c = ['\\', d] ∧ d ≠ 'u' ∧ shortEscape? d = some c ∧ pieceOf c = .char c := by
  intro c hc
  simp only [shortEscaped, List.mem_cons, List.not_mem_nil, or_false] at hc
  rcases hc with rfl | rfl | rfl | rfl | rfl | rfl | rfl
  · exact ⟨'"', by decide⟩
  · exact ⟨'\\', by decide⟩
  · exact ⟨'b', by decide⟩
  · exact ⟨'f', by decide⟩
  · exact ⟨'n', by decide⟩
  · exact ⟨'r', by decide⟩
  · exact ⟨'t', by decide⟩

theorem pieces?_escape (c : Char) (rest : List Char) :
    pieces? (escape c ++ rest) = (pieces? rest).map fun p => (pieceOf c :: p.1, p.2) := by
  by_cases hshort : c ∈ shortEscaped
  · obtain ⟨d, hd, hu, he, hp⟩ := escape_short c hshort
    rw [hd, hp]
    exact pieces?_short hu he rest
  simp only [shortEscaped, List.mem_cons, List.not_mem_nil, or_false, not_or] at hshort
  obtain ⟨hquote, hback, h8, hc, hn, hr, ht⟩ := hshort
  rw [escape, if_neg hquote, if_neg hback, if_neg h8, if_neg hc, if_neg hn, if_neg hr, if_neg ht]
  by_cases hlow : c.toNat < 0x20
  · have hp : pieceOf c = .unit c.toNat := by
      rw [pieceOf, if_pos]
      simp [hlow, h8, hc, hn, hr, ht]
    rw [if_pos hlow, hp]
    exact pieces?_unit (unit?_control c.toNat hlow) rest
  · have hp : pieceOf c = .char c := by
      rw [pieceOf, if_neg fun h => hlow h.1]
    rw [if_neg hlow, hp]
    exact pieces?_plain hquote hback hlow rest

theorem pieces?_flatMap_escape (cs rest : List Char) :
    pieces? (cs.flatMap escape ++ '"' :: rest) = some (cs.map pieceOf, rest) := by
  induction cs with
  | nil => rfl
  | cons c cs ih =>
    rw [List.flatMap_cons, List.append_assoc, pieces?_escape, ih]
    rfl

theorem joinPieces_cons_unit {n : Nat} (hhigh : isHighUnit n = false) (hlow : isLowUnit n = false)
    (ps : List Piece) : joinPieces (.unit n :: ps) = (joinPieces ps).map (Char.ofNat n :: ·) := by
  cases ps with
  | nil => simp [joinPieces, hhigh, hlow]
  | cons p ps => cases p <;> simp [joinPieces, hhigh, hlow]

theorem joinPieces_cons_pieceOf (c : Char) (ps : List Piece) :
    joinPieces (pieceOf c :: ps) = (joinPieces ps).map (c :: ·) := by
  rw [pieceOf]
  split
  next h =>
    have hhigh : isHighUnit c.toNat = false := by
      simp only [isHighUnit, Bool.and_eq_false_iff, decide_eq_false_iff_not]
      omega
    have hlow : isLowUnit c.toNat = false := by
      simp only [isLowUnit, Bool.and_eq_false_iff, decide_eq_false_iff_not]
      omega
    rw [joinPieces_cons_unit hhigh hlow, Char.ofNat_toNat]
  next => rw [joinPieces]

theorem joinPieces_map_pieceOf (cs : List Char) : joinPieces (cs.map pieceOf) = some cs := by
  induction cs with
  | nil => rfl
  | cons c cs ih => rw [List.map_cons, joinPieces_cons_pieceOf, ih, Option.map_some]

theorem text?_renderText (s : Option String) (rest : List Char) :
    ∃ cs, (renderText s).toList = '"' :: cs ∧ text? (cs ++ rest) = some (s, rest) := by
  cases s with
  | none =>
    refine ⟨['\\', 'u', 'd', '8', '0', '0', '"'], rfl, ?_⟩
    have hu : unit? 'd' '8' '0' '0' = some 0xD800 := by decide
    rw [text?, List.cons_append, List.cons_append, List.cons_append, List.cons_append,
      List.cons_append, List.cons_append, pieces?_unit hu]
    rfl
  | some s =>
    refine ⟨s.toList.flatMap escape ++ ['"'], ?_, ?_⟩
    · simp only [renderText, quote, String.toList_append, String.toList_ofList]
      rfl
    · rw [List.append_assoc, List.singleton_append, text?, pieces?_flatMap_escape, Option.map_some]
      simp only [joinPieces_map_pieceOf, Option.map_some, String.ofList_toList]

end Strings

end Json

end Bindable
