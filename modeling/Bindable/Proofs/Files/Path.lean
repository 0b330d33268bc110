import Bindable.Files.Tree

/-! Paths of files in a directory. A plain name names a file in the directory itself, whichever way
the path of the directory ends. -/

namespace Bindable

/-- A name of one part that stands for itself. -/
structure IsPlainName (name : String) : Prop where
  ne_empty : name ≠ ""
  ne_dot : name ≠ "."
  ne_dots : name ≠ ".."
  notMem_slash : '/' ∉ name.toList

instance : DecidablePred IsPlainName := fun name =>
  decidable_of_iff (name ≠ "" ∧ name ≠ "." ∧ name ≠ ".." ∧ '/' ∉ name.toList)
    ⟨fun ⟨hempty, hdot, hdots, hslash⟩ => ⟨hempty, hdot, hdots, hslash⟩,
      fun h => ⟨h.ne_empty, h.ne_dot, h.ne_dots, h.notMem_slash⟩⟩

theorem splitSlashes_ne_nil (cs : List Char) : splitSlashes cs ≠ [] := by
  cases cs with
  | nil => simp [splitSlashes]
  | cons c cs =>
    rw [splitSlashes]
    split
    · simp
    · split <;> simp

theorem splitSlashes_cons {c : Char} (hc : c ≠ '/') {cs part : List Char} {parts : List (List Char)}
    (h : splitSlashes cs = part :: parts) : splitSlashes (c :: cs) = (c :: part) :: parts := by
  rw [splitSlashes, if_neg hc, h]

theorem splitSlashes_of_notMem {cs : List Char} (h : '/' ∉ cs) : splitSlashes cs = [cs] := by
  induction cs with
  | nil => rfl
  | cons c cs ih =>
    have hc : c ≠ '/' := fun he => h (he ▸ List.mem_cons_self)
    exact splitSlashes_cons hc (ih fun hm => h (List.mem_cons_of_mem _ hm))

theorem splitSlashes_append (before after : List Char) :
    splitSlashes (before ++ '/' :: after) = splitSlashes before ++ splitSlashes after := by
  induction before with
  | nil => simp [splitSlashes]
  | cons c before ih =>
    by_cases hc : c = '/'
    · simp [splitSlashes, hc, ih]
    · obtain ⟨part, parts, hp⟩ := List.exists_cons_of_ne_nil (splitSlashes_ne_nil before)
      rw [hp] at ih
      rw [List.cons_append, splitSlashes_cons hc ih, splitSlashes_cons hc hp]
      rfl

theorem partNames_append (before after : String) :
    partNames (before ++ "/" ++ after) = partNames before ++ partNames after := by
  have hs : (before ++ "/" ++ after).toList = before.toList ++ '/' :: after.toList := by
    rw [String.toList_append, String.toList_append, List.append_assoc]
    rfl
  rw [partNames, hs, splitSlashes_append, List.filter_append, List.map_append]
  rfl

theorem partNames_empty : partNames "" = [] := rfl

theorem endsWith_iff {s suffix : String} :
    s.endsWith suffix = true ↔ suffix.toList <:+ s.toList := by
  rw [String.endsWith_eq_endsWith_toSlice, String.Slice.endsWith_string_iff, String.copy_toSlice]

theorem exists_eq_append_slash {s : String} (h : s.endsWith "/" = true) :
    ∃ before, s = before ++ "/" := by
  obtain ⟨before, hb⟩ := endsWith_iff.mp h
  refine ⟨String.ofList before, ?_⟩
  rw [← String.toList_inj, String.toList_append, String.toList_ofList, hb]

section Endings

variable {path suffix name : String} {before : List String}

theorem exists_splitSlashes_append {ending : List Char} (h : '/' ∉ ending) (cs : List Char) :
    ∃ parts part, splitSlashes (cs ++ ending) = parts ++ [part ++ ending] := by
  induction cs with
  | nil => exact ⟨[], [], splitSlashes_of_notMem h⟩
  | cons c cs ih =>
    obtain ⟨parts, part, hparts⟩ := ih
    by_cases hc : c = '/'
    · exact ⟨[] :: parts, part, by rw [List.cons_append, splitSlashes, if_pos hc, hparts]; rfl⟩
    · cases parts with
      | nil => exact ⟨[], c :: part, splitSlashes_cons hc hparts⟩
      | cons first parts => exact ⟨(c :: first) :: parts, part, splitSlashes_cons hc hparts⟩

theorem exists_joinPath_eq (directory name : String) :
    ∃ around, joinPath directory name = around ++ name := by
  rw [joinPath]
  split
  · exact ⟨"", (String.empty_append).symm⟩
  split
  · exact ⟨directory, rfl⟩
  · exact ⟨directory ++ "/", rfl⟩

/-- The last name on a path ends as the path does. -/
theorem isSuffix_of_pathNames (hne : suffix ≠ "") (hslash : '/' ∉ suffix.toList)
    (h : path.endsWith suffix = true) (hnames : pathNames path = before ++ [name]) :
    suffix.toList <:+ name.toList := by
  obtain ⟨cs, hcs⟩ := endsWith_iff.mp h
  obtain ⟨parts, part, hparts⟩ := exists_splitSlashes_append hslash cs
  have hchars : suffix.toList ≠ [] := fun he => hne (String.toList_inj.mp he)
  have hopen : path.endsWith "/" = false := by
    rw [Bool.eq_false_iff]
    intro he
    have hlast : "/".toList <:+ suffix.toList :=
      List.suffix_of_suffix_length_le (endsWith_iff.mp he) (endsWith_iff.mp h)
        (List.length_pos_iff.mpr hchars)
    exact hslash (hlast.mem (List.mem_singleton_self '/'))
  simp only [pathNames, hopen, Bool.false_and, if_neg Bool.false_ne_true, partNames] at hnames
  rw [← hcs, hparts, List.filter_append, List.map_append,
    List.filter_cons_of_pos (by simp [hchars]), List.filter_nil, List.map_singleton] at hnames
  have hname := List.singleton_inj.mp (List.append_inj_right' hnames rfl)
  rw [← hname, String.toList_ofList]
  exact List.suffix_append part suffix.toList

end Endings

section PlainName

variable {name : String}

theorem IsPlainName.toList_ne_nil (h : IsPlainName name) : name.toList ≠ [] :=
  fun he => h.ne_empty (String.toList_inj.mp he)

theorem IsPlainName.partNames (h : IsPlainName name) : partNames name = [name] := by
  rw [Bindable.partNames, splitSlashes_of_notMem h.notMem_slash,
    List.filter_cons_of_pos (by simpa using h.toList_ne_nil), List.filter_nil, List.map_singleton,
    String.ofList_toList]

theorem IsPlainName.not_isPrefixOf (h : IsPlainName name) : "/".isPrefixOf name = false := by
  rw [Bool.eq_false_iff]
  intro hp
  obtain ⟨rest, hrest⟩ := String.startsWith_string_iff.mp hp
  exact h.notMem_slash (hrest ▸ List.mem_append_left _ (List.mem_singleton_self '/'))

theorem IsPlainName.partNames_joinPath (h : IsPlainName name) (directory : String) :
    Bindable.partNames (joinPath directory name) = Bindable.partNames directory ++ [name] := by
  rw [joinPath, h.not_isPrefixOf, if_neg Bool.false_ne_true]
  by_cases hempty : directory = ""
  · subst hempty
    rw [if_pos (by simp), String.empty_append, h.partNames, partNames_empty, List.nil_append]
  by_cases hslash : directory.endsWith "/" = true
  · rw [if_pos (by simp [hslash])]
    obtain ⟨before, rfl⟩ := exists_eq_append_slash hslash
    have hnames := partNames_append before ""
    rw [String.append_empty, partNames_empty, List.append_nil] at hnames
    rw [hnames, partNames_append, h.partNames]
  · rw [if_neg (by simp [hempty, hslash]), partNames_append, h.partNames]

theorem IsPlainName.pathNames_joinPath (h : IsPlainName name) (directory : String) :
    pathNames (joinPath directory name) = Bindable.partNames directory ++ [name] := by
  have hslash : (joinPath directory name).endsWith "/" = false := by
    rw [Bool.eq_false_iff]
    intro hs
    obtain ⟨before, hb⟩ := exists_joinPath_eq directory name
    obtain ⟨around, ha⟩ := exists_eq_append_slash hs
    have hlast := congrArg (fun s => s.toList.getLast?) (hb.symm.trans ha)
    have hne : name.toList.getLast? ≠ none := mt List.getLast?_eq_none_iff.mp h.toList_ne_nil
    obtain ⟨c, hc⟩ := Option.ne_none_iff_exists'.mp hne
    obtain rfl : c = '/' := by simpa [hc] using hlast
    exact h.notMem_slash (List.mem_of_getLast? hc)
  simp only [pathNames, hslash, Bool.false_and, if_neg Bool.false_ne_true, h.partNames_joinPath]

end PlainName

end Bindable
