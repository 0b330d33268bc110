import Bindable.Table
import Mathlib.Data.List.Induction

/-! Laws of tables. What is found under a key depends on the last change at that key alone,
whether the entries are sorted or not; the order of the keys matters to what is written down. -/

namespace Bindable.Table

variable {α : Type} {t : Table α} {key name : String} {value : α}

def Sorted (t : Table α) : Prop := t.Pairwise fun p q => p.1 < q.1

theorem get?_nil (name : String) : get? ([] : Table α) name = none := rfl

theorem get?_cons (key : String) (value : α) (t : Table α) (name : String) :
    get? ((key, value) :: t) name = if key = name then some value else get? t name := by
  by_cases h : key = name <;> simp [get?, h]

theorem get?_insert (key : String) (value : α) (t : Table α) (name : String) :
    get? (insert key value t) name = if key = name then some value else get? t name := by
  induction t with
  | nil => rw [insert, get?_cons]
  | cons p rest ih =>
    obtain ⟨k, v⟩ := p
    rw [insert]
    by_cases hk : key = k
    · rw [if_pos hk, get?_cons, get?_cons, hk]
      by_cases hn : k = name <;> simp [hn]
    · rw [if_neg hk]
      by_cases hlt : key < k
      · rw [if_pos hlt, get?_cons]
      · rw [if_neg hlt, get?_cons, get?_cons, ih]
        by_cases hn : key = name
        · subst hn
          simp [Ne.symm hk]
        · rw [if_neg hn, if_neg hn]

theorem get?_erase (key : String) (t : Table α) (name : String) :
    get? (erase key t) name = if key = name then none else get? t name := by
  induction t with
  | nil => simp [erase, get?_nil]
  | cons p rest ih =>
    obtain ⟨k, v⟩ := p
    by_cases hk : k = key
    · have he : erase key ((k, v) :: rest) = erase key rest := by simp [erase, hk]
      rw [he, ih, get?_cons, hk]
      by_cases hn : key = name <;> simp [hn]
    · have he : erase key ((k, v) :: rest) = (k, v) :: erase key rest := by simp [erase, hk]
      rw [he, get?_cons, get?_cons, ih]
      by_cases hn : key = name
      · subst hn
        simp [hk]
      · rw [if_neg hn, if_neg hn]

def eraseAll (t : Table α) : List String → Table α
  | [] => t
  | key :: keys => eraseAll (erase key t) keys

theorem get?_eraseAll (t : Table α) (keys : List String) (name : String) :
    get? (eraseAll t keys) name = if name ∈ keys then none else get? t name := by
  induction keys generalizing t with
  | nil => rfl
  | cons key keys ih =>
    rw [eraseAll, ih, get?_erase]
    by_cases hn : name ∈ keys
    · rw [if_pos hn, if_pos (List.mem_cons_of_mem _ hn)]
    · by_cases he : key = name
      · simp [he]
      · simp [hn, he, Ne.symm he]

theorem eraseAll_eq_filter (t : Table α) (keys : List String) :
    eraseAll t keys = t.filter fun p => p.1 ∉ keys := by
  induction keys generalizing t with
  | nil => exact (List.filter_eq_self.mpr (by simp)).symm
  | cons key keys ih =>
    rw [eraseAll, ih, erase, List.filter_filter]
    congr 1
    funext p
    simp [Bool.and_comm]

theorem eraseAll_append_singleton (t : Table α) (keys : List String) (key : String) :
    eraseAll t (keys ++ [key]) = erase key (eraseAll t keys) := by
  induction keys generalizing t with
  | nil => rfl
  | cons first keys ih => exact ih (erase first t)

theorem erase_eq_self (h : get? t key = none) : erase key t = t := by
  apply List.filter_eq_self.mpr
  intro p hp
  simpa [get?] using List.find?_eq_none.mp (Option.map_eq_none_iff.mp h) p hp

theorem get?_isSome_iff (t : Table α) (name : String) :
    (get? t name).isSome ↔ name ∈ t.map (·.1) := by
  induction t with
  | nil => simp [get?_nil]
  | cons p rest ih =>
    obtain ⟨k, v⟩ := p
    by_cases hn : k = name
    · simp [get?_cons, hn]
    · rw [get?_cons, if_neg hn, ih, List.map_cons, List.mem_cons]
      simp [Ne.symm hn]

theorem mem_insert {p : String × α} (h : p ∈ insert key value t) : p = (key, value) ∨ p ∈ t := by
  induction t with
  | nil => exact .inl (List.mem_singleton.mp h)
  | cons q rest ih =>
    rw [insert] at h
    split at h
    · rcases List.mem_cons.mp h with h | h
      · exact .inl h
      · exact .inr (List.mem_cons_of_mem _ h)
    · split at h
      · exact List.mem_cons.mp h
      · rcases List.mem_cons.mp h with h | h
        · exact .inr (h ▸ List.mem_cons_self)
        · exact (ih h).imp_right (List.mem_cons_of_mem _)

theorem insert_insert (key : String) (value old : α) (t : Table α) :
    insert key value (insert key old t) = insert key value t := by
  induction t with
  | nil => simp [insert]
  | cons p rest ih =>
    obtain ⟨k, v⟩ := p
    by_cases hk : key = k
    · simp [insert, hk]
    by_cases hlt : key < k
    · simp [insert, hk, hlt]
    · simp [insert, hk, hlt, ih]

theorem Sorted.nil : Sorted ([] : Table α) := List.Pairwise.nil

theorem Sorted.insert (h : Sorted t) (key : String) (value : α) :
    Sorted (t.insert key value) := by
  induction t with
  | nil => exact List.pairwise_singleton _ _
  | cons p rest ih =>
    obtain ⟨k, v⟩ := p
    obtain ⟨hk, hrest⟩ := List.pairwise_cons.mp h
    rw [Table.insert]
    by_cases he : key = k
    · rw [if_pos he]
      exact List.pairwise_cons.mpr ⟨fun q hq => he ▸ hk q hq, hrest⟩
    rw [if_neg he]
    by_cases hlt : key < k
    · rw [if_pos hlt]
      refine List.pairwise_cons.mpr ⟨fun q hq => ?_, h⟩
      rcases List.mem_cons.mp hq with rfl | hq
      · exact hlt
      · exact String.lt_trans hlt (hk q hq)
    · rw [if_neg hlt]
      refine List.pairwise_cons.mpr ⟨fun q hq => ?_, ih hrest⟩
      rcases mem_insert hq with rfl | hq
      · exact Std.lt_of_le_of_ne (String.not_lt.mp hlt) (Ne.symm he)
      · exact hk q hq

theorem Sorted.erase (h : Sorted t) (key : String) : Sorted (t.erase key) :=
  List.Pairwise.filter _ h

theorem Sorted.eraseAll (h : Sorted t) (keys : List String) : Sorted (t.eraseAll keys) := by
  induction keys generalizing t with
  | nil => exact h
  | cons key keys ih => exact ih (h.erase key)

theorem insert_of_forall_lt (h : ∀ p ∈ t, p.1 < key) :
    t.insert key value = t ++ [(key, value)] := by
  induction t with
  | nil => rfl
  | cons p rest ih =>
    obtain ⟨k, v⟩ := p
    have hk : k < key := h (k, v) List.mem_cons_self
    rw [Table.insert, if_neg (Ne.symm (String.ne_of_lt hk)), if_neg (String.lt_asymm hk),
      ih fun q hq => h q (List.mem_cons_of_mem _ hq)]
    rfl

theorem Sorted.foldl_insert {s : Table α} (h : Sorted (s ++ t)) :
    t.foldl (fun s p => s.insert p.1 p.2) s = s ++ t := by
  induction t generalizing s with
  | nil => simp
  | cons p rest ih =>
    have hlt : ∀ q ∈ s, q.1 < p.1 :=
      fun q hq => (List.pairwise_append.mp h).2.2 q hq p List.mem_cons_self
    have hs : s ++ [p] ++ rest = s ++ p :: rest := by simp
    rw [List.foldl_cons, insert_of_forall_lt hlt, ih (hs ▸ h), hs]

theorem Sorted.ofList (h : Sorted t) : Table.ofList t = t := h.foldl_insert (s := [])

theorem Sorted.get?_eq_none (h : Sorted ((key, value) :: t)) {name : String} (hn : name ≤ key) :
    get? t name = none := by
  rw [get?, Option.map_eq_none_iff, List.find?_eq_none]
  intro p hp
  have hlt : key < p.1 := (List.pairwise_cons.mp h).1 p hp
  simpa using Ne.symm (String.ne_of_lt (Std.lt_of_le_of_lt hn hlt))

/-- Sorted tables are the same when the same is found in them. -/
theorem Sorted.ext {s : Table α} (hs : Sorted s) (ht : Sorted t)
    (h : ∀ name, get? s name = get? t name) : s = t := by
  induction s generalizing t with
  | nil =>
    cases t with
    | nil => rfl
    | cons q rest =>
      have hq := h q.1
      rw [get?_nil, get?_cons, if_pos rfl] at hq
      contradiction
  | cons p rest ih =>
    obtain ⟨k, v⟩ := p
    cases t with
    | nil =>
      have hp := h k
      rw [get?_nil, get?_cons, if_pos rfl] at hp
      contradiction
    | cons q rest' =>
      obtain ⟨k', v'⟩ := q
      obtain rfl : k = k' := by
        by_contra hne
        rcases Std.le_total (a := k) (b := k') with hle | hle
        · have hp := h k
          rw [get?_cons, if_pos rfl, get?_cons, if_neg (Ne.symm hne), ht.get?_eq_none hle] at hp
          contradiction
        · have hq := h k'
          rw [get?_cons, if_neg hne, get?_cons, if_pos rfl, hs.get?_eq_none hle] at hq
          contradiction
      have hv := h k
      rw [get?_cons, get?_cons, if_pos rfl, if_pos rfl, Option.some.injEq] at hv
      rw [hv, ih (List.pairwise_cons.mp hs).2 (List.pairwise_cons.mp ht).2 fun name => ?_]
      by_cases hn : k = name
      · rw [← hn, hs.get?_eq_none (Std.le_refl k), ht.get?_eq_none (Std.le_refl k)]
      · have hrest := h name
        rwa [get?_cons, get?_cons, if_neg hn, if_neg hn] at hrest

theorem ofList_append_singleton (l : List (String × α)) (p : String × α) :
    ofList (l ++ [p]) = (ofList l).insert p.1 p.2 := by
  rw [ofList, List.foldl_append]
  rfl

theorem sorted_ofList (l : List (String × α)) : Sorted (ofList l) := by
  induction l using List.reverseRecOn with
  | nil => exact .nil
  | append_singleton l p ih =>
    rw [ofList_append_singleton]
    exact ih.insert p.1 p.2

theorem get?_ofList_of_notMem {l : List (String × α)} (h : name ∉ l.map (·.1)) :
    get? (ofList l) name = none := by
  induction l using List.reverseRecOn with
  | nil => rfl
  | append_singleton l p ih =>
    simp only [List.map_append, List.map_singleton, List.mem_append, List.mem_singleton,
      not_or] at h
    rw [ofList_append_singleton, get?_insert, if_neg (Ne.symm h.2), ih h.1]

theorem get?_ofList_of_mem {l : List (String × α)} (hnodup : (l.map (·.1)).Nodup)
    (h : (key, value) ∈ l) : get? (ofList l) key = some value := by
  induction l using List.reverseRecOn with
  | nil => contradiction
  | append_singleton l p ih =>
    rw [List.map_append, List.nodup_append] at hnodup
    obtain ⟨hl, -, hdisjoint⟩ := hnodup
    rw [ofList_append_singleton, get?_insert]
    rcases List.mem_append.mp h with h | h
    · rw [if_neg, ih hl h]
      exact Ne.symm (hdisjoint key (List.mem_map.mpr ⟨_, h, rfl⟩) p.1 (by simp))
    · rw [← List.mem_singleton.mp h, if_pos rfl]

end Bindable.Table
