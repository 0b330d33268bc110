import Bindable.Text.Code
import Mathlib.Data.List.Infix

/-! A body is code with comments and literals between. Each of these ends where the grammar of the
language ends it, whatever stands in it, so that stripping leaves the code as it is and one blank for
each of the others. -/

namespace Bindable.Text

/-- What may stand between the quotes of a string or a character: a backslash goes with what follows
it. -/
def isEscaped (quote : Char) : List Char → Bool
  | [] => true
  | '\\' :: _ :: cs => isEscaped quote cs
  | c :: cs => c != quote && c != '\\' && c != '\n' && isEscaped quote cs

/-- What may stand between the quotes of a verbatim string: a quote is written twice. -/
def isDoubled : List Char → Bool
  | [] => true
  | '"' :: '"' :: cs => isDoubled cs
  | c :: cs => c != '"' && isDoubled cs

inductive TokenKind where
  | lineComment | blockComment | string | verbatim | character
  deriving DecidableEq, Repr

namespace TokenKind

def opening : TokenKind → List Char
  | lineComment => ['/', '/']
  | blockComment => ['/', '*']
  | string => ['"']
  | verbatim => ['@', '"']
  | character => ['\'']

def closing : TokenKind → List Char
  | lineComment => []
  | blockComment => ['*', '/']
  | string | verbatim => ['"']
  | character => ['\'']

/-- The token does not end before its closing. -/
def Admits : TokenKind → List Char → Prop
  | lineComment, content => '\n' ∉ content
  | blockComment, content => ¬ ['*', '/'] <:+: content
  | string, content => isEscaped '"' content
  | verbatim, content => isDoubled content
  | character, content => isEscaped '\'' content

/-- The token does not go on after its closing. -/
def EndsBefore : TokenKind → List Char → Prop
  | lineComment, rest => ∀ c ∈ rest.head?, c = '\n'
  | verbatim, rest => rest.head? ≠ some '"'
  | _, _ => True

instance : (k : TokenKind) → (content : List Char) → Decidable (k.Admits content)
  | lineComment, content => inferInstanceAs (Decidable ('\n' ∉ content))
  | blockComment, content => inferInstanceAs (Decidable (¬ ['*', '/'] <:+: content))
  | string, content => inferInstanceAs (Decidable (isEscaped '"' content = true))
  | verbatim, content => inferInstanceAs (Decidable (isDoubled content = true))
  | character, content => inferInstanceAs (Decidable (isEscaped '\'' content = true))

end TokenKind

inductive Piece where
  | code (text : List Char)
  | token (kind : TokenKind) (content : List Char)
  deriving DecidableEq, Repr

namespace Piece

def text : Piece → List Char
  | code s => s
  | token k content => k.opening ++ content ++ k.closing

/-- The text of code; of comments and literals nothing. -/
def code? : Piece → Option (List Char)
  | code s => some s
  | token _ _ => none

/-- What is left of a piece. -/
def stripped (p : Piece) : List Char := p.code?.getD [' ']

end Piece

def textOf (ps : List Piece) : List Char := ps.flatMap (·.text)

/-- Code has no quotes, and nothing in it opens a comment or a literal, not even together with what
follows it. -/
def isCode : List Char → Bool
  | [] => true
  | c :: cs =>
    c != '"' && c != '\'' && (c != '/' || cs.head?.any fun d => d != '/' && d != '*') &&
      (c != '@' || !cs.isEmpty) && isCode cs

inductive IsBody : List Piece → Prop
  | nil : IsBody []
  | code {s : List Char} {ps : List Piece} (hs : isCode s) (hps : IsBody ps) : IsBody (.code s :: ps)
  | token {k : TokenKind} {content : List Char} {ps : List Piece} (hcontent : k.Admits content)
      (hnext : k.EndsBefore (textOf ps)) (hps : IsBody ps) : IsBody (.token k content :: ps)

section Tokens

variable {s rest : List Char} {c : Char}

theorem afterLiteral?_plain {quote : Char} (hquote : c ≠ quote) (hback : c ≠ '\\') (hline : c ≠ '\n')
    (hrest : rest ≠ []) : afterLiteral? quote (c :: rest) = afterLiteral? quote rest := by
  obtain ⟨d, ds, rfl⟩ := List.exists_cons_of_ne_nil hrest
  rw [afterLiteral?, if_neg hquote, if_neg hback, if_neg hline]

theorem afterLiteral?_quote (quote : Char) (rest : List Char) :
    afterLiteral? quote (quote :: rest) = some rest := by
  cases rest <;> simp [afterLiteral?]

theorem afterLiteral?_append {quote : Char} (hquote : quote ≠ '\\') (h : isEscaped quote s) :
    afterLiteral? quote (s ++ quote :: rest) = some rest := by
  fun_induction isEscaped quote s with
  | case1 => exact afterLiteral?_quote quote rest
  | case2 c cs ih =>
    rw [List.cons_append, List.cons_append, afterLiteral?, if_neg hquote.symm, if_pos rfl]
    exact ih h
  | case3 c cs _ ih =>
    simp only [Bool.and_eq_true, bne_iff_ne, ne_eq] at h
    obtain ⟨⟨⟨hc, hback⟩, hline⟩, hcs⟩ := h
    rw [List.cons_append, afterLiteral?_plain hc hback hline (by simp)]
    exact ih hcs

theorem afterVerbatim?_plain (hc : c ≠ '"') (hrest : rest ≠ []) :
    afterVerbatim? (c :: rest) = afterVerbatim? rest := by
  obtain ⟨d, ds, rfl⟩ := List.exists_cons_of_ne_nil hrest
  rw [afterVerbatim?, if_neg hc]

theorem afterVerbatim?_quote (hrest : rest.head? ≠ some '"') :
    afterVerbatim? ('"' :: rest) = some rest := by
  cases rest with
  | nil => rfl
  | cons d ds =>
    have hd : d ≠ '"' := fun hd => hrest (congrArg some hd)
    rw [afterVerbatim?, if_pos rfl, if_neg hd]

theorem afterVerbatim?_append (h : isDoubled s) (hrest : rest.head? ≠ some '"') :
    afterVerbatim? (s ++ '"' :: rest) = some rest := by
  fun_induction isDoubled s with
  | case1 => exact afterVerbatim?_quote hrest
  | case2 cs ih =>
    rw [List.cons_append, List.cons_append, afterVerbatim?, if_pos rfl, if_pos rfl, ih h]
  | case3 c cs _ ih =>
    simp only [Bool.and_eq_true, bne_iff_ne, ne_eq] at h
    rw [List.cons_append, afterVerbatim?_plain h.1 (by simp)]
    exact ih h.2

theorem afterBlock?_append (h : ¬ ['*', '/'] <:+: s) :
    afterBlock? (s ++ '*' :: '/' :: rest) = some rest := by
  induction s with
  | nil => rfl
  | cons c cs ih =>
    have hcs : ¬ ['*', '/'] <:+: cs := fun hcs => h (hcs.trans (List.suffix_cons c cs).isInfix)
    have hclosing : ¬ (c = '*' ∧ (cs ++ '*' :: '/' :: rest).head? = some '/') := by
      rintro ⟨rfl, hhead⟩
      cases cs with
      | nil => simp at hhead
      | cons d ds =>
        obtain rfl : d = '/' := by simpa using hhead
        exact h ⟨[], ds, rfl⟩
    rw [List.cons_append]
    obtain ⟨d, ds, hd⟩ : ∃ d ds, cs ++ '*' :: '/' :: rest = d :: ds :=
      List.exists_cons_of_ne_nil (by simp)
    rw [hd] at hclosing ih ⊢
    rw [afterBlock?, if_neg (by simpa using hclosing)]
    exact ih hcs

theorem dropWhile_lineComment (hs : '\n' ∉ s) (hrest : ∀ c ∈ rest.head?, c = '\n') :
    (s ++ rest).dropWhile (· != '\n') = rest := by
  have hall : ∀ c ∈ s, (c != '\n') = true := by
    intro c hc
    rw [bne_iff_ne]
    rintro rfl
    exact hs hc
  rw [List.dropWhile_append_of_pos hall]
  cases rest with
  | nil => rfl
  | cons c cs => simp [hrest c rfl]

/-- A comment or literal is recognised as a whole. -/
theorem afterToken?_token {k : TokenKind} (hs : k.Admits s) (hrest : k.EndsBefore rest) :
    afterToken? (k.opening ++ s ++ k.closing ++ rest) = some rest := by
  cases k with
  | lineComment =>
    show some (((s ++ []) ++ rest).dropWhile (· != '\n')) = some rest
    rw [List.append_nil, dropWhile_lineComment hs hrest]
  | blockComment =>
    show afterBlock? (s ++ ['*', '/'] ++ rest) = some rest
    rw [List.append_assoc]
    exact afterBlock?_append hs
  | string =>
    show afterLiteral? '"' (s ++ ['"'] ++ rest) = some rest
    rw [List.append_assoc]
    exact afterLiteral?_append (by decide) hs
  | verbatim =>
    show afterVerbatim? (s ++ ['"'] ++ rest) = some rest
    rw [List.append_assoc]
    exact afterVerbatim?_append hs hrest
  | character =>
    show afterLiteral? '\'' (s ++ ['\''] ++ rest) = some rest
    rw [List.append_assoc]
    exact afterLiteral?_append (by decide) hs

theorem opening_ne_nil (k : TokenKind) : k.opening ≠ [] := by
  cases k <;> simp [TokenKind.opening]

theorem stripChars_token {k : TokenKind} (hs : k.Admits s) (hrest : k.EndsBefore rest) :
    stripChars (k.opening ++ s ++ k.closing ++ rest) = ' ' :: stripChars rest := by
  have htoken := afterToken?_token hs hrest
  obtain ⟨c, cs, hopening⟩ := List.exists_cons_of_ne_nil (opening_ne_nil k)
  rw [hopening] at htoken ⊢
  simp only [List.cons_append] at htoken ⊢
  rw [stripChars]
  split
  next rest' h =>
    obtain rfl := Option.some_inj.mp (h.symm.trans htoken)
    rfl
  next h =>
    rw [htoken] at h
    cases h

theorem afterToken?_eq_none (hstring : c ≠ '"') (hcharacter : c ≠ '\'')
    (hslash : c = '/' → rest.head? ≠ some '/' ∧ rest.head? ≠ some '*')
    (hsign : c = '@' → rest.head? ≠ some '"') : afterToken? (c :: rest) = none := by
  rw [afterToken?.eq_def]
  split
  next heq =>
    obtain ⟨rfl, rfl⟩ := List.cons.inj heq
    exact absurd rfl (hslash rfl).1
  next heq =>
    obtain ⟨rfl, rfl⟩ := List.cons.inj heq
    exact absurd rfl (hslash rfl).2
  next heq =>
    obtain ⟨rfl, rfl⟩ := List.cons.inj heq
    exact absurd rfl (hsign rfl)
  next heq => exact absurd (List.cons.inj heq).1 hstring
  next heq => exact absurd (List.cons.inj heq).1 hcharacter
  next => rfl

theorem stripChars_cons (h : afterToken? (c :: rest) = none) :
    stripChars (c :: rest) = c :: stripChars rest := by
  rw [stripChars]
  split
  next rest' hsome =>
    rw [h] at hsome
    cases hsome
  next => rfl

/-- In code every slash and every sign has its next character in the code. -/
theorem afterToken?_code {cs : List Char} (h : isCode (c :: cs)) (rest : List Char) :
    afterToken? (c :: (cs ++ rest)) = none := by
  simp only [isCode, Bool.and_eq_true, Bool.or_eq_true, bne_iff_ne, ne_eq, Bool.not_eq_true',
    List.isEmpty_eq_false_iff] at h
  obtain ⟨⟨⟨⟨hstring, hcharacter⟩, hslash⟩, hsign⟩, hcs⟩ := h
  refine afterToken?_eq_none hstring hcharacter ?_ ?_
  · rintro rfl
    cases cs with
    | nil => simp at hslash
    | cons d ds => simpa using hslash
  · rintro rfl
    cases cs with
    | nil => simp at hsign
    | cons d ds =>
      have hd : d ≠ '"' := by
        simp only [isCode, Bool.and_eq_true, bne_iff_ne, ne_eq] at hcs
        exact hcs.1.1.1.1
      simpa using hd

theorem stripChars_code (hs : isCode s) (rest : List Char) :
    stripChars (s ++ rest) = s ++ stripChars rest := by
  induction s with
  | nil => rfl
  | cons c cs ih =>
    have hcs : isCode cs := by
      rw [isCode, Bool.and_eq_true] at hs
      exact hs.2
    rw [List.cons_append, stripChars_cons (afterToken?_code hs rest), ih hcs, List.cons_append]

end Tokens

section Bodies

variable {ps qs : List Piece}

theorem stripChars_textOf (h : IsBody ps) : stripChars (textOf ps) = ps.flatMap (·.stripped) := by
  induction h with
  | nil => simp [textOf, stripChars]
  | @code s ps hs hps ih =>
    calc stripChars (textOf (.code s :: ps)) = stripChars (s ++ textOf ps) := rfl
      _ = s ++ stripChars (textOf ps) := stripChars_code hs _
      _ = s ++ ps.flatMap (·.stripped) := by rw [ih]
  | @token k content ps hcontent hnext hps ih =>
    calc stripChars (textOf (.token k content :: ps))
        = stripChars (k.opening ++ content ++ k.closing ++ textOf ps) := rfl
      _ = ' ' :: stripChars (textOf ps) := stripChars_token hcontent hnext
      _ = ' ' :: ps.flatMap (·.stripped) := by rw [ih]

theorem flatMap_stripped_eq (h : ps.map (·.code?) = qs.map (·.code?)) :
    ps.flatMap (·.stripped) = qs.flatMap (·.stripped) := by
  have hstripped : ∀ ps : List Piece,
      ps.flatMap (·.stripped) = (ps.map (·.code?)).flatMap (·.getD [' ']) := by
    intro ps
    rw [List.flatMap_map]
    rfl
  rw [hstripped, hstripped, h]

/-- Stripping leaves the code and one blank for each comment or literal, so that bodies of the same
code mention the same names, whatever their comments and literals are. -/
theorem strip_textOf (h : IsBody ps) :
    strip (String.ofList (textOf ps)) = String.ofList (ps.flatMap (·.stripped)) ∧
    ∀ qs, IsBody qs → qs.map (·.code?) = ps.map (·.code?) → ∀ identifier,
      references (String.ofList (textOf qs)) identifier =
        references (String.ofList (textOf ps)) identifier := by
  refine ⟨?_, fun qs hqs hcode identifier => ?_⟩
  · rw [strip, String.toList_ofList, stripChars_textOf h]
  · rw [references, references, String.toList_ofList, String.toList_ofList, stripChars_textOf h,
      stripChars_textOf hqs, flatMap_stripped_eq hcode]

/-- Each token has the opening of another one in it. -/
def mixedPieces (comment : List Char) : List Piece :=
  [.token .verbatim "a\"\"//".toList, .code " + ".toList, .token .blockComment " \" * / ".toList,
    .token .string "\\\"/*".toList, .token .character "\"".toList, .code "; ".toList,
    .token .lineComment comment, .code "\nText".toList]

theorem isBody_mixedPieces {comment : List Char} (h : '\n' ∉ comment) :
    IsBody (mixedPieces comment) := by
  refine .token (by decide) ?_ <| .code (by decide) <| .token (by decide) trivial <|
    .token (by decide) trivial <| .token (by decide) trivial <| .code (by decide) <|
    .token h ?_ <| .code (by decide) .nil
  · simp [TokenKind.EndsBefore, textOf, Piece.text]
  · simp [TokenKind.EndsBefore, textOf, Piece.text]

theorem strip_textOf_mixed :
    textOf (mixedPieces "Text".toList) =
      "@\"a\"\"//\" + /* \" * / */\"\\\"/*\"'\"'; //Text\nText".toList ∧
    strip (String.ofList (textOf (mixedPieces "Text".toList))) = "  +    ;  \nText" ∧
    ∀ identifier, references (String.ofList (textOf (mixedPieces "Text".toList))) identifier =
      references (String.ofList (textOf (mixedPieces "\"*/".toList))) identifier := by
  have hbody : IsBody (mixedPieces "Text".toList) := isBody_mixedPieces (by decide)
  have hother : IsBody (mixedPieces "\"*/".toList) := isBody_mixedPieces (by decide)
  exact ⟨by decide, (strip_textOf hbody).1, (strip_textOf hother).2 _ hbody rfl⟩

end Bodies

end Bindable.Text
