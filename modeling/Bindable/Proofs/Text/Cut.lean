import Bindable.Text.Cut
import Mathlib.Data.List.Basic
import Mathlib.Data.List.TakeWhile

/-! Texts that are put together from parts, and the cuts that find the parts again. -/

namespace Bindable.Text

variable {c : Char} {s s' t t' word rest : List Char}

theorem takeWhile_ne_append (hs : c ∉ s) (ht : ∀ x ∈ t.head?, x = c) :
    (s ++ t).takeWhile (· != c) = s := by
  have hne : ∀ x ∈ s, (x != c) = true := by
    rintro x hx
    exact bne_iff_ne.mpr (by rintro rfl; exact hs hx)
  rw [List.takeWhile_append_of_pos hne]
  cases t with
  | nil => simp
  | cons x t => simp [ht x rfl]

theorem takeWhile_eq_iff {p : Char → Bool} : s.takeWhile p = t ↔
    (∀ x ∈ t, p x) ∧ ∃ rest, s = t ++ rest ∧ ∀ x ∈ rest.head?, p x = false := by
  constructor
  · rintro rfl
    refine ⟨fun x hx => List.mem_takeWhile_imp hx, s.dropWhile p,
      List.takeWhile_append_dropWhile.symm, fun x hx => ?_⟩
    have hhead := List.head?_dropWhile_not p s
    rw [Option.mem_def.mp hx] at hhead
    exact hhead
  · rintro ⟨ht, rest, rfl, hrest⟩
    rw [List.takeWhile_append_of_pos ht]
    cases rest with
    | nil => simp
    | cons x rest => simp [hrest x rfl]

theorem afterLast_of_notMem (ht : c ∉ t) : afterLast c t = t := by
  have hr : c ∉ t.reverse := fun h => ht (List.mem_reverse.mp h)
  have hw := takeWhile_ne_append (t := []) hr (by simp)
  rw [List.append_nil] at hw
  rw [afterLast, hw, List.reverse_reverse]

theorem afterLast_append (s : List Char) (ht : c ∉ t) : afterLast c (s ++ c :: t) = t := by
  have hr : c ∉ t.reverse := fun h => ht (List.mem_reverse.mp h)
  have hw := takeWhile_ne_append (t := c :: s.reverse) hr (by simp)
  have he : (s ++ c :: t).reverse = t.reverse ++ c :: s.reverse := by simp
  rw [afterLast, he, hw, List.reverse_reverse]

theorem afterLast_eq_iff : afterLast c s = t ↔
    c ∉ t ∧ ∃ before, s = before ++ t ∧ ∀ x ∈ before.getLast?, x = c := by
  rw [afterLast, List.reverse_eq_iff, takeWhile_eq_iff]
  constructor
  · rintro ⟨ht, rest, hs, hrest⟩
    have hs : s = rest.reverse ++ t := by simpa using congrArg List.reverse hs
    refine ⟨fun hc => ?_, rest.reverse, hs, fun x hx => ?_⟩
    · simpa using ht c (List.mem_reverse.mpr hc)
    · rw [List.getLast?_reverse] at hx
      simpa using hrest x hx
  · rintro ⟨ht, before, rfl, hbefore⟩
    refine ⟨fun x hx => ?_, before.reverse, by simp, fun x hx => ?_⟩
    · exact bne_iff_ne.mpr (by rintro rfl; exact ht (List.mem_reverse.mp hx))
    · rw [List.head?_reverse] at hx
      simpa using hbefore x hx

/-- Texts without a mark are told from what follows, if that is empty or starts with the mark. -/
theorem append_inj_of_marked (hs : c ∉ s) (hs' : c ∉ s') (ht : ∀ x ∈ t.head?, x = c)
    (ht' : ∀ x ∈ t'.head?, x = c) (h : s ++ t = s' ++ t') : s = s' ∧ t = t' := by
  have he : s = s' := by rw [← takeWhile_ne_append hs ht, h, takeWhile_ne_append hs' ht']
  exact ⟨he, List.append_cancel_left (he ▸ h)⟩

theorem isPrefixOf?_append (word s : List Char) : word.isPrefixOf? (word ++ s) = some s :=
  List.isPrefixOf?_eq_some_iff_append_eq.mpr rfl

theorem isPrefixOf?_eq_none (h : ¬word <+: s) : word.isPrefixOf? s = none := by
  rw [Option.eq_none_iff_forall_ne_some]
  intro rest hrest
  exact h ⟨rest, List.isPrefixOf?_eq_some_iff_append_eq.mp hrest⟩

theorem dropLeading_append (word s : List Char) : dropLeading word (word ++ s) = s := by
  rw [dropLeading, isPrefixOf?_append, Option.getD_some]

theorem dropLeading_eq_self (h : ¬word <+: s) : dropLeading word s = s := by
  rw [dropLeading, isPrefixOf?_eq_none h, Option.getD_none]

theorem dropLeadings_append (hword : word ≠ []) (s : List Char) :
    dropLeadings word (word ++ s) = dropLeadings word s := by
  have hshort : s.length < (word ++ s).length := by
    have hpos := List.length_pos_iff.mpr hword
    rw [List.length_append]
    omega
  rw [dropLeadings, isPrefixOf?_append]
  exact if_pos hshort

theorem dropLeadings_eq_self (h : ¬word <+: s) : dropLeadings word s = s := by
  rw [dropLeadings, isPrefixOf?_eq_none h]

/-- All repetitions of the word at the start are dropped, and no more. -/
theorem dropLeadings_eq_iff (hword : word ≠ []) : dropLeadings word s = rest ↔
    ¬word <+: rest ∧ ∃ k, s = (List.replicate k word).flatten ++ rest := by
  constructor
  · rintro rfl
    induction s using dropLeadings.induct word with
    | case1 s after hcut hlt ih =>
      obtain rfl := List.isPrefixOf?_eq_some_iff_append_eq.mp hcut
      obtain ⟨hnot, k, hk⟩ := ih
      rw [dropLeadings_append hword]
      refine ⟨hnot, k + 1, ?_⟩
      rw [List.replicate_succ, List.flatten_cons, List.append_assoc, ← hk]
    | case2 s after hcut hle =>
      obtain rfl := List.isPrefixOf?_eq_some_iff_append_eq.mp hcut
      have hpos := List.length_pos_iff.mpr hword
      rw [List.length_append] at hle
      omega
    | case3 s hcut =>
      have hnot : ¬word <+: s := by
        rintro ⟨after, rfl⟩
        rw [isPrefixOf?_append] at hcut
        contradiction
      rw [dropLeadings_eq_self hnot]
      exact ⟨hnot, 0, rfl⟩
  · rintro ⟨hnot, k, rfl⟩
    induction k with
    | zero => exact dropLeadings_eq_self hnot
    | succ k ih =>
      rw [List.replicate_succ, List.flatten_cons, List.append_assoc, dropLeadings_append hword, ih]

end Bindable.Text
