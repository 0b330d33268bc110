import Bindable.Proofs.Source.LiteralText
import Bindable.Source.Unit

/-! Texts without line breaks. The printer breaks a line only where it starts a new one: what it
writes into a line comes from the texts of the tree, and what it quotes is escaped. -/

namespace Bindable

def OneLine (s : String) : Prop := '\n' ∉ s.toList

instance : DecidablePred OneLine := fun _ => inferInstanceAs (Decidable (_ ∉ _))

section Texts

variable {s t : String} {l : List String}

@[simp] theorem oneLine_append : OneLine (s ++ t) ↔ OneLine s ∧ OneLine t := by
  simp [OneLine, not_or]

theorem oneLine_intercalate {separator : String} (hseparator : OneLine separator)
    (h : ∀ s ∈ l, OneLine s) : OneLine (separator.intercalate l) := by
  induction l with
  | nil => simp [OneLine]
  | cons s rest ih =>
    obtain ⟨hs, hrest⟩ := List.forall_mem_cons.mp h
    cases rest with
    | nil => rwa [String.intercalate_singleton]
    | cons s' rest =>
      rw [String.intercalate_cons_cons, oneLine_append, oneLine_append]
      exact ⟨⟨hs, hseparator⟩, ih hrest⟩

theorem oneLine_words (h : ∀ w ∈ l, OneLine w) : OneLine (words l) :=
  oneLine_intercalate (by decide) h

theorem oneLine_join (h : ∀ s ∈ l, OneLine s) : OneLine (String.join l) := by
  rw [OneLine, String.toList_join, List.mem_flatMap]
  rintro ⟨s, hs, hn⟩
  exact h s hs hn

theorem oneLine_parameterList (h : ∀ s ∈ l, OneLine s) : OneLine (parameterList l) := by
  rw [parameterList]
  split
  · decide
  · simp only [oneLine_append, oneLine_intercalate (by decide : OneLine ", ") h]
    decide

theorem oneLine_toString (n : Int) : OneLine (toString n) := fun hn =>
  absurd (isFigure_of_mem_toString _ hn) (by decide)

theorem oneLine_keyword (p : Primitive) : OneLine p.keyword := by
  cases p with
  | integer kind => cases kind <;> decide
  | _ => decide

end Texts

namespace Literal

/-- What a literal takes over as it stands. -/
def texts : Literal → List String
  | real _ text => [text]
  | _ => []

theorem newline_notMem_hex4 (n : Nat) : '\n' ∉ hex4 n := by
  have hdigit : ∀ k < 16, upperHexDigit k ≠ '\n' := by decide
  have hall : ∀ c ∈ hex4 n, c ≠ '\n' := by
    simp only [hex4, List.forall_mem_cons]
    refine ⟨?_, ?_, ?_, ?_, by simp⟩ <;> exact hdigit _ (Nat.mod_lt _ (by decide))
  exact fun h => hall _ h rfl

theorem newline_notMem_escapeUnit (unit : UInt16) : '\n' ∉ escapeUnit unit := by
  rw [escapeUnit]
  split
  · decide
  split
  · decide
  split
  case isTrue hprintable =>
    -- the unit is a printable character, and a line feed is none
    intro h
    have hself : '\n' = Char.ofNat unit.toNat := List.mem_singleton.mp h
    obtain ⟨hlow, hhigh⟩ := hprintable
    rw [UInt16.le_iff_toNat_le] at hlow hhigh
    have hchar : ∀ n < 0x7F, 0x20 ≤ n → '\n' ≠ Char.ofNat n := by decide
    exact hchar _ (Nat.lt_succ_of_le hhigh) hlow hself
  case isFalse =>
    have hhex := newline_notMem_hex4 unit.toNat
    simp [hhex]

theorem newline_notMem_escapeChar (c : Char) : '\n' ∉ escapeChar c := by
  by_cases hnamed : c ∈ namedEscapes
  · obtain ⟨e, u, hescape, -, hsimple, -⟩ := escapeChar_named c hnamed
    rw [hescape, List.mem_cons, List.mem_singleton, not_or]
    refine ⟨by decide, ?_⟩
    rintro rfl
    contradiction
  · have hself : c ≠ '\n' := by
      rintro rfl
      exact hnamed (by decide)
    have hhex := newline_notMem_hex4 c.toNat
    rw [escapeChar_eq hnamed]
    split
    · simp [hhex]
    · simpa using hself.symm

theorem oneLine_quote (s : String) : OneLine (quote s) := by
  have hbody : ∀ c ∈ s.toList, '\n' ∉ escapeChar c := fun c _ => newline_notMem_escapeChar c
  simpa [OneLine, quote] using hbody

theorem oneLine_renderInteger (kind : Primitive) (n : Int) : OneLine (renderInteger kind n) := by
  have hn := oneLine_toString n
  have hkeyword := oneLine_keyword kind
  unfold renderInteger
  split <;> simp only [oneLine_append, hn, hkeyword] <;> decide

theorem oneLine_render {l : Literal} (h : ∀ s ∈ l.texts, OneLine s) : OneLine l.render := by
  cases l with
  | null => decide
  | bool b => cases b <;> decide
  | char unit =>
    have hunit := newline_notMem_escapeUnit unit
    simpa [OneLine, render] using hunit
  | string s => exact oneLine_quote s
  | integer kind n => exact oneLine_renderInteger kind n
  | real kind text =>
    have hsuffix : OneLine (realSuffix kind) := by
      unfold realSuffix
      split <;> decide
    exact oneLine_append.mpr ⟨h _ (List.mem_singleton_self _), hsuffix⟩

end Literal

namespace Expr

mutual

/-- The texts of an expression other than the contents of its string literals. -/
def texts : Expr → List String
  | literal value => value.texts
  | ident name => [name]
  | typeOf type => [type]
  | defaultOf type => [type]
  | member target name => target.texts ++ [name]
  | cast type operand => type :: operand.texts
  | unchecked operand => operand.texts
  | call target arguments => target.texts ++ textsOfArguments arguments
  | lambda params body => params ++ body.texts

def textsOfArguments : List (Option String × Expr) → List String
  | [] => []
  | (name, value) :: rest => name.toList ++ value.texts ++ textsOfArguments rest

end

theorem oneLine_enclosePrimary (target : Expr) {text : String} (h : OneLine text) :
    OneLine (enclosePrimary target text) := by
  unfold enclosePrimary
  split
  · simp only [oneLine_append, h]
    decide
  · simp only [oneLine_append, h]
    decide
  · exact h

theorem oneLine_encloseOperand (operand : Expr) {text : String} (h : OneLine text) :
    OneLine (encloseOperand operand text) := by
  have henclosed : OneLine ("(" ++ text ++ ")") := by
    simp only [oneLine_append, h]
    decide
  unfold encloseOperand
  split
  · split <;> assumption
  · split <;> assumption
  · exact henclosed
  · exact henclosed
  · exact h

theorem oneLine_renderParams {params : List String} (h : ∀ p ∈ params, OneLine p) :
    OneLine (renderParams params) := by
  unfold renderParams
  split
  · exact h _ (List.mem_singleton_self _)
  · simp only [oneLine_append, oneLine_intercalate (by decide : OneLine ", ") h]
    decide

mutual

theorem oneLine_render : (e : Expr) → (∀ s ∈ e.texts, OneLine s) → OneLine e.render
  | literal value, h => value.oneLine_render h
  | ident name, h => h name (List.mem_singleton_self name)
  | typeOf type, h => by
    have htype := h type (List.mem_singleton_self type)
    simp only [render, oneLine_append, htype]
    decide
  | defaultOf type, h => by
    have htype := h type (List.mem_singleton_self type)
    simp only [render, oneLine_append, htype]
    decide
  | member target name, h => by
    obtain ⟨htarget, hname⟩ := List.forall_mem_append.mp h
    have hprimary := oneLine_enclosePrimary target (oneLine_render target htarget)
    simp only [render, oneLine_append, hprimary, hname name (List.mem_singleton_self name)]
    decide
  | cast type operand, h => by
    obtain ⟨htype, hoperand⟩ := List.forall_mem_cons.mp h
    have hrender := oneLine_encloseOperand operand (oneLine_render operand hoperand)
    simp only [render, oneLine_append, htype, hrender]
    decide
  | unchecked operand, h => by
    have hoperand := oneLine_render operand h
    simp only [render, oneLine_append, hoperand]
    decide
  | call target arguments, h => by
    obtain ⟨htarget, harguments⟩ := List.forall_mem_append.mp h
    have hprimary := oneLine_enclosePrimary target (oneLine_render target htarget)
    have hlist := oneLine_intercalate (by decide : OneLine ", ")
      (oneLine_renderArguments arguments harguments)
    simp only [render, oneLine_append, hprimary, hlist]
    decide
  | lambda params body, h => by
    obtain ⟨hparams, hbody⟩ := List.forall_mem_append.mp h
    simp only [render, oneLine_append, oneLine_renderParams hparams, oneLine_render body hbody]
    decide

theorem oneLine_renderArguments : (arguments : List (Option String × Expr)) →
    (∀ s ∈ textsOfArguments arguments, OneLine s) → ∀ a ∈ renderArguments arguments, OneLine a
  | [], _ => by simp [renderArguments]
  | (name, value) :: rest, h => by
    obtain ⟨hfirst, hrest⟩ := List.forall_mem_append.mp h
    obtain ⟨hname, hvalue⟩ := List.forall_mem_append.mp hfirst
    have hrender := oneLine_render value hvalue
    have htail := oneLine_renderArguments rest hrest
    cases name with
    | none => exact List.forall_mem_cons.mpr ⟨hrender, htail⟩
    | some name =>
      refine List.forall_mem_cons.mpr ⟨?_, htail⟩
      simp only [oneLine_append, hname name (List.mem_singleton_self name), hrender]
      decide

end

theorem oneLine_renderPrimary {e : Expr} (h : ∀ s ∈ e.texts, OneLine s) :
    OneLine e.renderPrimary :=
  oneLine_enclosePrimary e (e.oneLine_render h)

end Expr

end Bindable
