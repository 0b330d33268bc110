import Bindable.Proofs.Source.StringLiteral
import Bindable.Text.Cut
import Mathlib.Data.List.Nodup
import Mathlib.Data.List.TakeWhile
import Std.Data.String.ToInt

/-! Literals are told apart by their text. What is quoted is read back from between its quotes. All
else is a number inside letters: the letters give the kind and the number the value. -/

namespace Bindable

/-- A sign, digits, and digits after a point; all of it may be left out. -/
def isPlainDecimal (text : String) : Bool :=
  match (Text.dropLeading ['-'] text.toList).dropWhile (·.isDigit) with
  | [] => true
  | c :: fraction => c = '.' && fraction.all (·.isDigit)

/-- A literal whose kind goes with its value. -/
def Literal.isWellFormed : Literal → Bool
  | integer kind _ => kind.isIntegral
  | real kind text => kind.isReal && isPlainDecimal text
  | _ => true

/-- The unit in a character literal, whose length tells how it is written. -/
def charLiteral? : List Char → Option UInt16
  | [_, c, _] => some (.ofNat c.toNat)
  | [_, _, c, _] => simpleEscape? c
  | [_, _, _, a, b, c, d, _] => (Json.unit? a b c d).map .ofNat
  | _ => none

def isFigure (c : Char) : Bool := c.isDigit || c = '-' || c = '.'

def figures (s : String) : List Char := s.toList.filter isFigure

def letters (s : String) : List Char := s.toList.filter fun c => !isFigure c

section Figures

variable {s s' : String}

theorem figures_append (s s' : String) : figures (s ++ s') = figures s ++ figures s' := by
  simp [figures]

theorem letters_append (s s' : String) : letters (s ++ s') = letters s ++ letters s' := by
  simp [letters]

theorem figures_eq_toList (h : ∀ c ∈ s.toList, isFigure c) : figures s = s.toList :=
  List.filter_eq_self.mpr h

theorem letters_eq_nil (h : ∀ c ∈ s.toList, isFigure c) : letters s = [] := by
  rw [letters, List.filter_eq_nil_iff]
  intro c hc
  simp [h c hc]

theorem isFigure_of_mem_toString {n : Int} : ∀ c ∈ (toString n).toList, isFigure c := by
  intro c hc
  rw [Int.toString_eq_repr, Int.repr_eq_if] at hc
  have hdigits : ∀ m : Nat, ∀ c ∈ m.repr.toList, isFigure c := by
    intro m c hc
    rw [Nat.toList_repr] at hc
    simp [isFigure, Nat.isDigit_of_mem_toDigits (by decide) (by decide) hc]
  split at hc
  · exact hdigits _ c hc
  · rw [String.toList_append, List.mem_append] at hc
    obtain hc | hc := hc
    · obtain rfl : c = '-' := by simpa using hc
      decide
    · exact hdigits _ c hc

theorem isFigure_of_isPlainDecimal (h : isPlainDecimal s) : ∀ c ∈ s.toList, isFigure c := by
  have hdigit : ∀ c : Char, c.isDigit → isFigure c := by
    intro c hc
    simp [isFigure, hc]
  have hfraction : ∀ c ∈ (Text.dropLeading ['-'] s.toList).dropWhile (·.isDigit), isFigure c := by
    rw [isPlainDecimal] at h
    split at h
    next hnil => simp [hnil]
    next point fraction hcons =>
      simp only [Bool.and_eq_true, decide_eq_true_eq, List.all_eq_true] at h
      intro c hc
      rw [hcons, List.mem_cons] at hc
      obtain rfl | hc := hc
      · rw [h.1]
        decide
      · exact hdigit c (h.2 c hc)
  have hunsigned : ∀ c ∈ Text.dropLeading ['-'] s.toList, isFigure c := by
    intro c hc
    rw [← List.takeWhile_append_dropWhile (p := (·.isDigit)) (l := Text.dropLeading ['-'] s.toList),
      List.mem_append] at hc
    obtain hc | hc := hc
    · exact hdigit c (List.mem_takeWhile_imp hc)
    · exact hfraction c hc
  intro c hc
  by_cases hsign : ['-'].isPrefixOf? s.toList = none
  · rw [Text.dropLeading, hsign, Option.getD_none] at hunsigned
    exact hunsigned c hc
  · obtain ⟨unsigned, hsome⟩ := Option.ne_none_iff_exists'.mp hsign
    rw [Text.dropLeading, hsome, Option.getD_some] at hunsigned
    rw [← List.isPrefixOf?_eq_some_iff_append_eq.mp hsome, List.singleton_append,
      List.mem_cons] at hc
    obtain rfl | hc := hc
    · decide
    · exact hunsigned c hc

end Figures

namespace Literal

def isQuoted : Literal → Bool
  | char _ | string _ => true
  | _ => false

/-- The literal without its number. -/
def blank : Literal → Literal
  | integer kind _ => integer kind 0
  | real kind _ => real kind ""
  | l => l

/-- What is left of the unquoted literals without their numbers. -/
def blanks : List Literal :=
  [null, bool true, bool false, integer (.integer .sbyte) 0, integer (.integer .byte) 0,
    integer (.integer .short) 0, integer (.integer .ushort) 0, integer (.integer .int) 0,
    integer (.integer .uint) 0, integer (.integer .long) 0, integer (.integer .ulong) 0,
    real .float "", real .double "", real .decimal ""]

theorem letters_inj_of_mem_blanks : ∀ l ∈ blanks, ∀ m ∈ blanks,
    letters l.render = letters m.render → l = m := by
  decide +kernel

theorem not_quote_of_mem_blanks :
    ∀ l ∈ blanks, '"' ∉ letters l.render ∧ '\'' ∉ letters l.render := by
  decide +kernel

variable {l m : Literal}

theorem letters_toString (n : Int) : letters (toString n) = [] :=
  letters_eq_nil isFigure_of_mem_toString

theorem figures_toString (n : Int) : figures (toString n) = (toString n).toList :=
  figures_eq_toList isFigure_of_mem_toString

theorem letters_renderInteger (kind : IntegerKind) (n : Int) :
    letters (renderInteger (.integer kind) n) = letters (renderInteger (.integer kind) 0) := by
  cases kind <;> simp only [renderInteger, letters_append, letters_toString]

theorem figures_renderInteger (kind : IntegerKind) (n : Int) :
    figures (renderInteger (.integer kind) n) = (toString n).toList := by
  have hframe : ∀ kind : IntegerKind, figures ("(" ++ (Primitive.integer kind).keyword ++ ")") = [] := by
    intro kind
    cases kind <;> decide
  have hsuffix : figures "U" = [] ∧ figures "L" = [] ∧ figures "UL" = [] := by decide
  obtain ⟨hu, hl, hul⟩ := hsuffix
  cases kind <;> simp only [renderInteger, figures_append _ (toString n), figures_append (toString n),
    figures_toString, hframe, hu, hl, hul, List.nil_append, List.append_nil]

theorem figures_realSuffix (kind : Primitive) : figures (realSuffix kind) = [] := by
  unfold realSuffix
  split <;> decide

theorem letters_render (h : l.isWellFormed) : letters l.render = letters l.blank.render := by
  cases l with
  | integer kind n =>
    cases kind with
    | integer kind => exact letters_renderInteger kind n
    | _ => exact absurd h Bool.false_ne_true
  | real kind text =>
    simp only [isWellFormed, Bool.and_eq_true] at h
    simp only [blank, render, letters_append, letters_eq_nil (isFigure_of_isPlainDecimal h.2)]
    rfl
  | _ => rfl

theorem blank_mem_blanks (h : l.isWellFormed) (hquoted : l.isQuoted = false) :
    l.blank ∈ blanks := by
  cases l with
  | null => simp [blank, blanks]
  | bool b => simp [blank, blanks]
  | char unit => exact absurd hquoted.symm Bool.false_ne_true
  | string s => exact absurd hquoted.symm Bool.false_ne_true
  | integer kind n =>
    cases kind with
    | integer kind => cases kind <;> simp [blank, blanks]
    | _ => exact absurd h Bool.false_ne_true
  | real kind text =>
    simp only [isWellFormed, Bool.and_eq_true] at h
    cases kind with
    | float => simp [blank, blanks]
    | double => simp [blank, blanks]
    | decimal => simp [blank, blanks]
    | _ => exact absurd h.1 Bool.false_ne_true

/-- The letters of an unquoted literal give all of it but the number. -/
theorem blank_eq_of_render_eq (hl : l.isWellFormed) (hm : m.isWellFormed)
    (hlq : l.isQuoted = false) (hmq : m.isQuoted = false) (h : l.render = m.render) :
    l.blank = m.blank := by
  apply letters_inj_of_mem_blanks _ (blank_mem_blanks hl hlq) _ (blank_mem_blanks hm hmq)
  rw [← letters_render hl, ← letters_render hm, h]

theorem eq_of_render_eq_of_unquoted (hl : l.isWellFormed) (hm : m.isWellFormed)
    (hlq : l.isQuoted = false) (hmq : m.isQuoted = false) (h : l.render = m.render) : l = m := by
  have hblank := blank_eq_of_render_eq hl hm hlq hmq h
  have hfigures : figures l.render = figures m.render := by rw [h]
  cases l with
  | null => cases m <;> simp_all [blank]
  | bool b => cases m <;> simp_all [blank]
  | char unit => exact absurd hlq.symm Bool.false_ne_true
  | string s => exact absurd hlq.symm Bool.false_ne_true
  | integer kind n =>
    cases m with
    | integer kind' n' =>
      obtain rfl : kind = kind' := by simpa [blank] using hblank
      cases kind with
      | integer kind =>
        rw [render, render, figures_renderInteger, figures_renderInteger, String.toList_inj,
          Int.toString_eq_repr, Int.toString_eq_repr, Int.repr_inj] at hfigures
        rw [hfigures]
      | _ => exact absurd hl Bool.false_ne_true
    | _ => simp [blank] at hblank
  | real kind text =>
    cases m with
    | real kind' text' =>
      obtain rfl : kind = kind' := by simpa [blank] using hblank
      simp only [isWellFormed, Bool.and_eq_true] at hl hm
      rw [render, render, figures_append, figures_append, figures_realSuffix, List.append_nil,
        List.append_nil, figures_eq_toList (isFigure_of_isPlainDecimal hl.2),
        figures_eq_toList (isFigure_of_isPlainDecimal hm.2), String.toList_inj] at hfigures
      rw [hfigures]
    | _ => simp [blank] at hblank

/-- A quote tells that a literal is quoted. -/
theorem not_quote_mem_render (h : l.isWellFormed) (hquoted : l.isQuoted = false) :
    '"' ∉ l.render.toList ∧ '\'' ∉ l.render.toList := by
  have hblank := not_quote_of_mem_blanks _ (blank_mem_blanks h hquoted)
  rw [← letters_render h] at hblank
  constructor
  · intro hmem
    exact hblank.1 (List.mem_filter.mpr ⟨hmem, by decide⟩)
  · intro hmem
    exact hblank.2 (List.mem_filter.mpr ⟨hmem, by decide⟩)

theorem charLiteral?_render (unit : UInt16) :
    charLiteral? (char unit).render.toList = some unit := by
  have hunit : UInt16.ofNat unit.toNat = unit := UInt16.ofNat_toNat
  have hascii : ∀ n < 128, (Char.ofNat n).toNat = n := by decide
  have htext : (char unit).render.toList = '\'' :: (escapeUnit unit ++ ['\'']) := by
    simp [render]
  rw [htext, escapeUnit]
  split
  case isTrue hquote => rw [hquote]; rfl
  split
  case isTrue hback => rw [hback]; rfl
  split
  case isTrue hprintable =>
    have hlow : unit.toNat < 128 := by
      have hle := UInt16.le_iff_toNat_le.mp hprintable.2
      have hlast : (0x7E : UInt16).toNat = 126 := rfl
      omega
    simp only [charLiteral?, List.singleton_append, hascii _ hlow, hunit]
  case isFalse =>
    obtain ⟨a, b, c, d, hhex, hvalue⟩ := unit?_hex4 (UInt16.toNat_lt unit)
    rw [hhex]
    show (Json.unit? a b c d).map UInt16.ofNat = _
    rw [hvalue, Option.map_some, hunit]

/-- What is quoted is read back. -/
theorem eq_of_render_eq_of_quoted (hlq : l.isQuoted) (hmq : m.isQuoted)
    (h : l.render = m.render) : l = m := by
  have hhead : ∀ (unit : UInt16) (s : String), (char unit).render ≠ (string s).render := by
    intro unit s hrender
    have hlists := congrArg String.toList hrender
    simp [render, quote] at hlists
  cases l with
  | char unit =>
    cases m with
    | char unit' =>
      have hunit := charLiteral?_render unit
      rw [h, charLiteral?_render unit', Option.some_inj] at hunit
      rw [hunit]
    | string s => exact absurd h (hhead unit s)
    | _ => exact absurd hmq Bool.false_ne_true
  | string s =>
    cases m with
    | char unit => exact absurd h.symm (hhead unit s)
    | string s' =>
      have hread : ∀ s, stringLiteral? (fun _ => false) ((quote s).toList ++ []) =
          some (stringUnits s, []) := by
        intro s
        rw [stringLiteral?_quote, if_neg (by simp)]
      have htext : quote s = quote s' := by simpa only [render] using h
      have hunits := hread s
      rw [htext, hread s', Option.some_inj, Prod.mk.injEq] at hunits
      rw [stringUnits_eq_iff.mp hunits.1]
    | _ => exact absurd hmq Bool.false_ne_true
  | _ => exact absurd hlq Bool.false_ne_true

theorem quote_mem_render (hquoted : l.isQuoted) :
    '"' ∈ l.render.toList ∨ '\'' ∈ l.render.toList := by
  cases l with
  | char unit => exact .inr (by simp [render])
  | string s => exact .inl (by simp [render, quote])
  | _ => exact absurd hquoted Bool.false_ne_true

/-- Well-formed literals with one text are one literal. -/
theorem render_eq_iff (hl : l.isWellFormed) (hm : m.isWellFormed) :
    l.render = m.render ↔ l = m := by
  refine ⟨fun h => ?_, fun h => h ▸ rfl⟩
  have hmixed : ∀ {l m : Literal}, l.isQuoted → m.isQuoted = false → m.isWellFormed →
      l.render ≠ m.render := by
    intro l m hlq hmq hm hrender
    obtain ⟨hdouble, hsingle⟩ := not_quote_mem_render hm hmq
    obtain hmem | hmem := quote_mem_render hlq
    · exact hdouble (hrender ▸ hmem)
    · exact hsingle (hrender ▸ hmem)
  cases hlq : l.isQuoted with
  | true =>
    cases hmq : m.isQuoted with
    | true => exact eq_of_render_eq_of_quoted hlq hmq h
    | false => exact absurd h (hmixed hlq hmq hm)
  | false =>
    cases hmq : m.isQuoted with
    | true => exact absurd h.symm (hmixed hmq hlq hl)
    | false => exact eq_of_render_eq_of_unquoted hl hm hlq hmq h

/-- Two zeros, and a control character beside the spelling of its escape. -/
theorem render_eq_iff_lookalikes :
    (real .float "-0").isWellFormed ∧ (integer (.integer .int) 0).isWellFormed ∧
    (real .float "-0").render ≠ (integer (.integer .int) 0).render ∧
    (string "\x01").isWellFormed ∧ (string "\\u0001").isWellFormed ∧
    (string "\x01").render ≠ (string "\\u0001").render :=
  ⟨rfl, rfl, (render_eq_iff rfl rfl).not.mpr (by decide), rfl, rfl,
    (render_eq_iff rfl rfl).not.mpr (by decide)⟩

end Literal

end Bindable
