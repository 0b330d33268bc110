import Bindable.Proofs.Text.Identifiers
import Bindable.Proofs.Text.Stripping
import Mathlib.Data.List.DropRight
import Mathlib.Data.List.Infix

/-! Which words the scan of a body finds. A word is looked for as a longest run of ASCII letters,
digits and underscores, although the letters of other scripts belong to identifiers too: an
identifier with such a letter is never found, and next to one an identifier is found that is only a
part of the word. -/

namespace Bindable.Text

/-- No quotes, and no comment is opened. -/
def IsPlainCode (s : List Char) : Prop :=
  '"' ∉ s ∧ '\'' ∉ s ∧ ¬ ['/', '/'] <:+: s ∧ ¬ ['/', '*'] <:+: s

instance : DecidablePred IsPlainCode := fun _ => inferInstanceAs (Decidable (_ ∧ _))

/-- The word stands somewhere in the text where no character of the one kind comes before it and none
of the other after it. -/
def SplitsAround (before after : Char → Bool) (s word : List Char) : Prop :=
  ∃ pre post, s = pre ++ word ++ post ∧ (∀ c ∈ pre.getLast?, before c = false) ∧
    ∀ c ∈ post.head?, after c = false

/-- A letter or underscore is among the letters, digits and underscores that end the text. -/
def endsInWord (pre : List Char) : Bool := (pre.rtakeWhile isAsciiPart).any isAsciiStart

/-- Between these two texts the scan finds a word. -/
def IsGap (pre post : List Char) : Prop :=
  endsInWord pre = false ∧ ∀ c ∈ post.head?, isAsciiPart c = false

/-- What stands between the two texts goes on in a letter or number of another script. -/
def GoesOn (pre post : List Char) : Prop :=
  (∃ c ∈ pre.getLast?, isIdentifierStart c ∧ !isAscii c) ∨
    ∃ c ∈ post.head?, isIdentifierPart c ∧ !isAscii c

section Scan

variable {s w pre post xs : List Char} {c : Char}

theorem endsInWord_append_singleton (pre : List Char) (c : Char) :
    endsInWord (pre ++ [c]) = (isAsciiPart c && (endsInWord pre || isAsciiStart c)) := by
  rw [endsInWord, List.rtakeWhile_concat]
  cases hc : isAsciiPart c with
  | false => rfl
  | true => simp [endsInWord]

/-- The scan from left to right is inside a word at the end. -/
theorem endsInWord_eq_foldl (pre : List Char) : endsInWord pre =
    pre.foldl (fun inside c => isAsciiPart c && (inside || isAsciiStart c)) false := by
  induction pre using List.reverseRecOn with
  | nil => rfl
  | append_singleton pre c ih =>
    rw [endsInWord_append_singleton, ih, List.foldl_append]
    rfl

theorem endsInWord_cons (hc : isAsciiStart c = false) (pre : List Char) :
    endsInWord (c :: pre) = endsInWord pre := by
  rw [endsInWord_eq_foldl, endsInWord_eq_foldl, List.foldl_cons, hc, Bool.or_false, Bool.and_false]

theorem endsInWord_append (hc : isAsciiPart c = false) (xs pre : List Char) :
    endsInWord (xs ++ c :: pre) = endsInWord (c :: pre) := by
  rw [endsInWord_eq_foldl, endsInWord_eq_foldl, List.foldl_append, List.foldl_cons, List.foldl_cons,
    hc, Bool.false_and, Bool.false_and]

theorem endsInWord_of_all (hc : isAsciiStart c) (hxs : ∀ x ∈ xs, isAsciiPart x) :
    endsInWord (c :: xs) := by
  have hall : ∀ x ∈ c :: xs, isAsciiPart x := by
    intro x hx
    obtain rfl | hx := List.mem_cons.mp hx
    · exact isAsciiPart_of_start hc
    · exact hxs x hx
  rw [endsInWord, List.rtakeWhile_eq_self_iff.mpr hall, List.any_cons, hc, Bool.true_or]

theorem asciiWords_cons_start (hc : isAsciiStart c) (cs : List Char) : asciiWords (c :: cs) =
    (c :: cs.takeWhile isAsciiPart) :: asciiWords (cs.dropWhile isAsciiPart) := by
  rw [asciiWords, if_pos hc]

theorem asciiWords_cons_other (hc : isAsciiStart c = false) (cs : List Char) :
    asciiWords (c :: cs) = asciiWords cs := by
  rw [asciiWords, hc, if_neg Bool.false_ne_true]

theorem isAsciiWord_takeWhile (hc : isAsciiStart c) (cs : List Char) :
    isAsciiWord (c :: cs.takeWhile isAsciiPart) := by
  rw [isAsciiWord, hc, Bool.true_and, List.all_eq_true]
  exact fun x hx => List.mem_takeWhile_imp hx

theorem isAsciiPart_head?_dropWhile (cs : List Char) :
    ∀ c ∈ (cs.dropWhile isAsciiPart).head?, isAsciiPart c = false := by
  intro c hc
  have hnot := List.head?_dropWhile_not isAsciiPart cs
  rw [Option.mem_def] at hc
  rwa [hc] at hnot

/-- A run that does not reach the end of the text ends before some character of it. -/
theorem exists_dropWhile_eq_cons (hc : isAsciiStart c) (h : endsInWord (c :: pre) = false) :
    ∃ x xs, pre.dropWhile isAsciiPart = x :: xs ∧ endsInWord (x :: xs) = false := by
  have hstop : pre.dropWhile isAsciiPart ≠ [] := by
    intro hall
    rw [List.dropWhile_eq_nil_iff] at hall
    rw [endsInWord_of_all hc hall] at h
    cases h
  obtain ⟨x, xs, hx⟩ := List.exists_cons_of_ne_nil hstop
  have hpart : isAsciiPart x = false := isAsciiPart_head?_dropWhile pre x (by rw [hx]; rfl)
  refine ⟨x, xs, hx, ?_⟩
  rwa [← List.takeWhile_append_dropWhile (p := isAsciiPart) (l := pre), hx, ← List.cons_append,
    endsInWord_append hpart] at h

/-- After the first letter of a run the run itself is found, and else what stands after the run. -/
theorem exists_gap_start_iff (hc : isAsciiStart c) (hw : isAsciiWord w) (cs : List Char) :
    (∃ pre post, c :: cs = pre ++ w ++ post ∧ IsGap pre post) ↔
      w = c :: cs.takeWhile isAsciiPart ∨
        ∃ pre post, cs.dropWhile isAsciiPart = pre ++ w ++ post ∧ IsGap pre post := by
  obtain ⟨a, as, rfl⟩ : ∃ a as, w = a :: as :=
    List.exists_cons_of_ne_nil (by rintro rfl; cases hw)
  rw [isAsciiWord, Bool.and_eq_true, List.all_eq_true] at hw
  constructor
  · rintro ⟨pre, post, hs, hpre, hpost⟩
    cases pre with
    | nil =>
      simp only [List.nil_append, List.cons_append, List.cons.injEq] at hs
      obtain ⟨rfl, rfl⟩ := hs
      have hend : post.takeWhile isAsciiPart = [] := by
        cases post with
        | nil => rfl
        | cons d ds => simp [hpost d rfl]
      left
      rw [List.takeWhile_append_of_pos hw.2, hend, List.append_nil]
    | cons d pre =>
      simp only [List.cons_append, List.cons.injEq] at hs
      obtain ⟨rfl, rfl⟩ := hs
      -- the run ends before the word: up to it there would be one word otherwise
      obtain ⟨x, xs, hx, hgap⟩ := exists_dropWhile_eq_cons hc hpre
      refine .inr ⟨x :: xs, post, ?_, hgap, hpost⟩
      rw [List.append_assoc, List.dropWhile_append, hx]
      simp
  · rintro (hfirst | ⟨pre, post, hs, hpre, hpost⟩)
    · refine ⟨[], cs.dropWhile isAsciiPart, ?_, rfl, isAsciiPart_head?_dropWhile cs⟩
      rw [hfirst, List.nil_append, List.cons_append, List.takeWhile_append_dropWhile]
    · cases pre with
      | nil =>
        -- a word would begin where the run has ended
        have hstop := isAsciiPart_head?_dropWhile cs a (by rw [hs]; rfl)
        rw [isAsciiPart_of_start hw.1] at hstop
        cases hstop
      | cons x xs =>
        have hxpart := isAsciiPart_head?_dropWhile cs x (by rw [hs]; rfl)
        refine ⟨(c :: cs.takeWhile isAsciiPart) ++ x :: xs, post, ?_, ?_, hpost⟩
        · rw [List.append_assoc, List.append_assoc, ← List.append_assoc (x :: xs), ← hs,
            List.cons_append, List.takeWhile_append_dropWhile]
        · rwa [endsInWord_append hxpart]

theorem exists_gap_other_iff (hc : isAsciiStart c = false) (hw : isAsciiWord w) (cs : List Char) :
    (∃ pre post, c :: cs = pre ++ w ++ post ∧ IsGap pre post) ↔
      ∃ pre post, cs = pre ++ w ++ post ∧ IsGap pre post := by
  constructor
  · rintro ⟨pre, post, hs, hpre, hpost⟩
    cases pre with
    | nil =>
      cases w with
      | nil => cases hw
      | cons a as =>
        obtain ⟨rfl, -⟩ := List.cons.inj hs
        rw [isAsciiWord, hc] at hw
        cases hw
    | cons d pre =>
      obtain ⟨rfl, rfl⟩ := List.cons.inj hs
      exact ⟨pre, post, rfl, (endsInWord_cons hc pre).symm.trans hpre, hpost⟩
  · rintro ⟨pre, post, rfl, hpre, hpost⟩
    exact ⟨c :: pre, post, rfl, (endsInWord_cons hc pre).trans hpre, hpost⟩

/-- The scan finds a word wherever it stands between texts that it does not go on in. -/
theorem mem_asciiWords_iff {s w : List Char} : w ∈ asciiWords s ↔
    isAsciiWord w ∧ ∃ pre post, s = pre ++ w ++ post ∧ IsGap pre post := by
  induction s using asciiWords.induct with
  | case1 =>
    rw [asciiWords]
    refine iff_of_false List.not_mem_nil ?_
    rintro ⟨hw, pre, post, hs, -⟩
    obtain ⟨⟨-, rfl⟩, -⟩ : (pre = [] ∧ w = []) ∧ post = [] := by simpa [and_assoc] using hs
    cases hw
  | case2 c cs hc ih =>
    rw [asciiWords_cons_start hc, List.mem_cons, ih]
    constructor
    · rintro (rfl | ⟨hw, hgap⟩)
      · have hw := isAsciiWord_takeWhile hc cs
        exact ⟨hw, (exists_gap_start_iff hc hw cs).mpr (.inl rfl)⟩
      · exact ⟨hw, (exists_gap_start_iff hc hw cs).mpr (.inr hgap)⟩
    · rintro ⟨hw, hgap⟩
      exact ((exists_gap_start_iff hc hw cs).mp hgap).imp_right fun hgap => ⟨hw, hgap⟩
  | case3 c cs hc ih =>
    have hc' : isAsciiStart c = false := Bool.eq_false_iff.mpr hc
    rw [asciiWords_cons_other hc', ih]
    exact and_congr_right fun hw => (exists_gap_other_iff hc' hw cs).symm

end Scan

section Bodies

variable {s w pre post : List Char} {identifier : String} {c : Char}

/-- Stripping leaves such a body as it is. -/
theorem stripChars_of_isPlainCode (h : IsPlainCode s) : stripChars s = s := by
  induction s with
  | nil => rw [stripChars]
  | cons c cs ih =>
    obtain ⟨hstring, hcharacter, hline, hblock⟩ := h
    have hopening {d : Char} (hd : ¬ ['/', d] <:+: c :: cs) : c = '/' → cs.head? ≠ some d := by
      rintro rfl hhead
      obtain ⟨ds, rfl⟩ := List.head?_eq_some_iff.mp hhead
      exact hd ⟨[], ds, rfl⟩
    have hquote : cs.head? ≠ some '"' := by
      intro hhead
      obtain ⟨ds, rfl⟩ := List.head?_eq_some_iff.mp hhead
      simp at hstring
    have htail {t : List Char} (ht : ¬ t <:+: c :: cs) : ¬ t <:+: cs :=
      fun hcs => ht (hcs.trans (List.suffix_cons c cs).isInfix)
    have hnone : afterToken? (c :: cs) = none :=
      afterToken?_eq_none (List.ne_of_not_mem_cons hstring).symm
        (List.ne_of_not_mem_cons hcharacter).symm
        (fun hc => ⟨hopening hline hc, hopening hblock hc⟩) fun _ => hquote
    rw [stripChars_cons hnone, ih ⟨List.not_mem_of_not_mem_cons hstring,
      List.not_mem_of_not_mem_cons hcharacter, htail hline, htail hblock⟩]

theorem isPlainCode_of_all (h : s.all isIdentifierPart) : IsPlainCode s := by
  have hnot {d : Char} (hd : ¬ isIdentifierPart d) : d ∉ s :=
    fun hmem => hd (List.all_eq_true.mp h d hmem)
  have hslash : '/' ∉ s := hnot (by decide +kernel)
  refine ⟨hnot (by decide +kernel), hnot (by decide +kernel), ?_, ?_⟩
  · exact fun hline => hslash (hline.subset List.mem_cons_self)
  · exact fun hblock => hslash (hblock.subset List.mem_cons_self)

theorem endsInWord_eq_false (h : ∀ c ∈ pre.getLast?, isAsciiPart c = false) :
    endsInWord pre = false := by
  cases pre using List.reverseRecOn with
  | nil => rfl
  | append_singleton pre c =>
    rw [endsInWord_append_singleton, h c (by simp), Bool.false_and]

theorem isAsciiStart_getLast?_eq_false (h : endsInWord pre = false) :
    ∀ c ∈ pre.getLast?, isAsciiStart c = false := by
  intro c hc
  obtain ⟨pre, rfl⟩ := List.getLast?_eq_some_iff.mp hc
  rw [endsInWord_append_singleton] at h
  rw [Bool.eq_false_iff]
  intro hstart
  rw [isAsciiPart_of_start hstart, hstart, Bool.or_true] at h
  cases h

/-- Where no letter or number of any script touches the word, the scan finds it. -/
theorem isGap_of_isIdentifierPart (hpre : ∀ c ∈ pre.getLast?, isIdentifierPart c = false)
    (hpost : ∀ c ∈ post.head?, isIdentifierPart c = false) : IsGap pre post := by
  refine ⟨endsInWord_eq_false fun c hc => ?_, fun c hc => ?_⟩
  · rw [isAsciiPart_eq, hpre c hc, Bool.false_and]
  · rw [isAsciiPart_eq, hpost c hc, Bool.false_and]

theorem IsGap.eq_false_of_not_goesOn (h : IsGap pre post) (hgoes : ¬ GoesOn pre post) :
    (∀ c ∈ pre.getLast?, isIdentifierStart c = false) ∧
      ∀ c ∈ post.head?, isIdentifierPart c = false := by
  rw [GoesOn, not_or] at hgoes
  constructor
  · intro c hc
    have hascii := isAsciiStart_getLast?_eq_false h.1 c hc
    rw [isAsciiStart_eq] at hascii
    rw [Bool.eq_false_iff]
    intro hstart
    rw [hstart, Bool.true_and] at hascii
    exact hgoes.1 ⟨c, hc, hstart, by rw [hascii]; rfl⟩
  · intro c hc
    have hascii := h.2 c hc
    rw [isAsciiPart_eq] at hascii
    rw [Bool.eq_false_iff]
    intro hpart
    rw [hpart, Bool.true_and] at hascii
    exact hgoes.2 ⟨c, hc, hpart, by rw [hascii]; rfl⟩

theorem isWord_of_isIdentifier (h : isIdentifier identifier) (hsign : '@' ∉ identifier.toList) :
    isWord identifier.toList := by
  have hhead : identifier.toList.head? ≠ some '@' :=
    fun hhead => hsign (List.mem_of_mem_head? hhead)
  rwa [isIdentifier, isIdentifierChars_eq hhead] at h

theorem references_iff_isGap {body : String} (hword : isWord identifier.toList)
    (hbody : IsPlainCode body.toList) :
    references body identifier ↔ identifier.toList.all isAscii ∧
      ∃ pre post, body.toList = pre ++ identifier.toList ++ post ∧ IsGap pre post := by
  rw [references, List.contains_iff_mem, stripChars_of_isPlainCode hbody, mem_asciiWords_iff,
    isAsciiWord_eq, hword, Bool.true_and]

/-- A word that follows one more letter stands there in no other place. -/
theorem not_splitsAround_cons (hc : isIdentifierStart c) (hw : w.all isIdentifierPart) :
    ¬ SplitsAround isIdentifierStart isIdentifierPart (c :: w) w := by
  rintro ⟨pre, post, hs, hpre, hpost⟩
  have hlen := congrArg List.length hs
  simp only [List.length_cons, List.length_append] at hlen
  cases pre with
  | nil =>
    obtain ⟨d, ds, rfl⟩ : ∃ d ds, post = d :: ds := by
      apply List.exists_cons_of_ne_nil
      rintro rfl
      simp at hlen
    have hall : (c :: w).all isIdentifierPart := by
      rw [List.all_cons, isIdentifierPart_of_start hc, hw]
      rfl
    have hmem : d ∈ c :: w := by simp [hs]
    have hpart := List.all_eq_true.mp hall d hmem
    rw [hpost d rfl] at hpart
    cases hpart
  | cons d pre =>
    obtain rfl : pre = [] := by
      rw [← List.length_eq_zero_iff]
      simp only [List.length_cons] at hlen
      omega
    obtain rfl : c = d := by simpa using congrArg List.head? hs
    have hlast := hpre c rfl
    rw [hc] at hlast
    cases hlast

/-- In a body of code only, an identifier is found if and only if it is in ASCII and stands where the
ASCII word does not go on. So it is found wherever it stands as a whole word, unless it has a letter
or number of another script, and found nowhere else, unless one of these goes on with the word: after
any such letter every identifier in ASCII is found. -/
theorem references_iff (hid : isIdentifier identifier) (hsign : '@' ∉ identifier.toList) :
    (∀ body : String, IsPlainCode body.toList →
      (references body identifier ↔ identifier.toList.all isAscii ∧
        ∃ pre post, body.toList = pre ++ identifier.toList ++ post ∧ IsGap pre post) ∧
      (SplitsAround isIdentifierPart isIdentifierPart body.toList identifier.toList →
        (references body identifier ↔ identifier.toList.all isAscii)) ∧
      (references body identifier →
        SplitsAround isIdentifierStart isIdentifierPart body.toList identifier.toList ∨
          ∀ pre post, body.toList = pre ++ identifier.toList ++ post → IsGap pre post →
            GoesOn pre post)) ∧
    (identifier.toList.all isAscii → ∀ c, isLetter c → !isAscii c →
      IsPlainCode (c :: identifier.toList) ∧
      references (String.ofList (c :: identifier.toList)) identifier ∧
      ¬ SplitsAround isIdentifierStart isIdentifierPart (c :: identifier.toList)
        identifier.toList) := by
  have hword := isWord_of_isIdentifier hid hsign
  refine ⟨fun body hbody => ⟨references_iff_isGap hword hbody, ?_, ?_⟩, ?_⟩
  · rintro ⟨pre, post, hs, hpre, hpost⟩
    rw [references_iff_isGap hword hbody]
    exact and_iff_left ⟨pre, post, hs, isGap_of_isIdentifierPart hpre hpost⟩
  · intro _
    by_contra! hnot
    obtain ⟨hsplits, pre, post, hs, hgap, hgoes⟩ := hnot
    exact hsplits ⟨pre, post, hs, hgap.eq_false_of_not_goesOn hgoes⟩
  · intro hascii c hletter hother
    have hstart : isIdentifierStart c := by rw [isIdentifierStart, hletter, Bool.true_or]
    have hplain : IsPlainCode (c :: identifier.toList) := by
      apply isPlainCode_of_all
      rw [List.all_cons, isIdentifierPart_of_start hstart, all_of_isWord hword]
      rfl
    refine ⟨hplain, ?_, not_splitsAround_cons hstart (all_of_isWord hword)⟩
    rw [references_iff_isGap hword (by rwa [String.toList_ofList]), String.toList_ofList]
    refine ⟨hascii, [c], [], by simp, endsInWord_eq_false ?_, by simp⟩
    rintro d hd
    obtain rfl : c = d := by simpa using hd
    rw [Bool.not_eq_true'] at hother
    rw [isAsciiPart_eq, hother, Bool.and_false]

theorem references_iff_otherScripts :
    isIdentifier "GrößeProperty" ∧ ¬ references "SetValue(GrößeProperty, value)" "GrößeProperty" ∧
    isIdentifier "TextProperty" ∧ references "äTextProperty" "TextProperty" ∧
    ¬ SplitsAround isIdentifierStart isIdentifierPart "äTextProperty".toList
      "TextProperty".toList := by
  have hsize : isIdentifier "GrößeProperty" := by decide +kernel
  have htext : isIdentifier "TextProperty" := by decide +kernel
  have hsizeBody := (references_iff hsize (by decide)).1 "SetValue(GrößeProperty, value)" (by decide)
  have hwhole : SplitsAround isIdentifierPart isIdentifierPart
      "SetValue(GrößeProperty, value)".toList "GrößeProperty".toList := by
    refine ⟨"SetValue(".toList, ", value)".toList, by decide, ?_, ?_⟩
    · intro c hc
      obtain rfl := Option.some_inj.mp (show some '(' = some c from hc)
      decide
    · intro c hc
      obtain rfl := Option.some_inj.mp (show some ',' = some c from hc)
      decide
  have hascii : "TextProperty".toList.all isAscii := by decide
  have hletter : isLetter 'ä' := by decide +kernel
  have htextBody := (references_iff htext (by decide)).2 hascii 'ä' hletter (by decide)
  refine ⟨hsize, ?_, htext, htextBody.2⟩
  rw [hsizeBody.2.1 hwhole]
  decide

end Bodies

end Bindable.Text
