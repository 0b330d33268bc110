import Bindable.Proofs.Files.Creation

/-! Where files are written and removed, by whatever path. A tree is seen as a map from lists of
names to what is at their ends. A write or a removal changes it at one list of names and leaves all
directories in place, so that every other path to a file or to a place for one keeps its
destination. -/

namespace Bindable.FileTree

variable {root t u : FileTree} {names other reached ns R : List String} {path name : String}
  {entries : List (String × FileTree)} {text : Option String} {node : FileTree}

inductive Kind where
  | file (text : Option String)
  | directory
  deriving DecidableEq, Repr

def kind : FileTree → Kind
  | file text => .file text
  | directory _ => .directory

/-- What is at the end of a list of names, whatever a directory holds. -/
def kind? (t : FileTree) (names : List String) : Option Kind := (t.node? names).map kind

section Kinds

theorem kind?_eq_directory_iff :
    t.kind? names = some .directory ↔ ∃ entries, t.node? names = some (directory entries) := by
  rw [kind?]
  rcases t.node? names with - | ⟨text⟩ | ⟨entries⟩ <;> simp [kind]

theorem kind?_append_singleton (h : t.node? R = some (directory entries)) (name : String) :
    t.kind? (R ++ [name]) = (Table.get? entries name).map kind := by
  rw [kind?, node?_append_singleton h]

theorem kind?_ne_directory_iff (h : t.node? R = some (directory entries)) :
    t.kind? (R ++ [name]) ≠ some .directory ↔
      ∀ below, Table.get? entries name ≠ some (directory below) := by
  rw [kind?_append_singleton h]
  rcases Table.get? entries name with - | ⟨text⟩ | ⟨below⟩ <;> simp [kind]

/-- What is below a file, or where nothing is. -/
theorem bind_node?_of_ne_directory {o : Option FileTree}
    (h : ∀ below, o ≠ some (directory below)) (first : String) (rest : List String) :
    o.bind (node? (first :: rest)) = none := by
  rcases o with - | ⟨text⟩ | ⟨below⟩
  · rfl
  · rfl
  · exact absurd rfl (h below)

/-- An entry of a directory that is not a directory, and does not become one, is changed alone. -/
theorem kind?_updateAt {change : List (String × FileTree) → List (String × FileTree)}
    (h : t.node? R = some (directory entries))
    (hold : ∀ below, Table.get? entries name ≠ some (directory below))
    (hnew : ∀ below, Table.get? (change entries) name ≠ some (directory below))
    (hothers : ∀ other, other ≠ name →
      Table.get? (change entries) other = Table.get? entries other) (names : List String) :
    (t.updateAt change R).kind? names =
      if names = R ++ [name] then (Table.get? (change entries) name).map kind
      else t.kind? names := by
  induction R generalizing t names with
  | nil =>
    obtain rfl : t = directory entries := Option.some.inj h
    cases names with
    | nil => rfl
    | cons first rest =>
      simp only [updateAt, kind?, node?, child?, List.nil_append, List.cons.injEq]
      by_cases hfirst : first = name
      · subst hfirst
        cases rest with
        | nil =>
          rw [if_pos ⟨rfl, rfl⟩]
          cases Table.get? (change entries) first <;> rfl
        | cons second rest =>
          rw [bind_node?_of_ne_directory hnew, bind_node?_of_ne_directory hold, if_neg (by simp)]
      · rw [hothers first hfirst, if_neg fun he => hfirst he.1]
  | cons first R ih =>
    obtain ⟨around, rfl⟩ := exists_directory_of_node? h
    obtain ⟨child, hchild, hrest⟩ := Option.bind_eq_some_iff.mp h
    have hchild : Table.get? around first = some child := hchild
    cases names with
    | nil => simp only [updateAt, hchild]; rfl
    | cons second rest =>
      simp only [updateAt, hchild, kind?, node?, child?, Table.get?_insert, List.cons_append,
        List.cons.injEq]
      by_cases he : first = second
      · subst he
        have ih := ih hrest rest
        rw [kind?, kind?] at ih
        simpa [hchild] using ih
      · rw [if_neg he, if_neg fun h' => he h'.1.symm]

end Kinds

/-- Directories are at the same places. -/
def SameDirectories (t u : FileTree) : Prop :=
  ∀ names, t.kind? names = some .directory ↔ u.kind? names = some .directory

namespace SameDirectories

theorem refl (t : FileTree) : SameDirectories t t := fun _ => Iff.rfl

theorem symm (h : SameDirectories t u) : SameDirectories u t := fun names => (h names).symm

theorem trans (h : SameDirectories root t) (h' : SameDirectories t u) : SameDirectories root u :=
  fun names => (h names).trans (h' names)

theorem keepsDirectories (h : SameDirectories t u) : KeepsDirectories t u := by
  intro names entries hnode
  exact kind?_eq_directory_iff.mp ((h names).mp (kind?_eq_directory_iff.mpr ⟨entries, hnode⟩))

theorem hasDirectory (h : SameDirectories t u) (hhas : t.HasDirectory path entries) :
    ∃ entries', u.HasDirectory path entries' := by
  obtain ⟨R, hR⟩ := hhas
  obtain ⟨entries', hnode⟩ := h.keepsDirectories R entries (node?_of_locateFrom hR)
  exact ⟨entries', R, locateFrom_of_keepsDirectories h.keepsDirectories hnode hR⟩

end SameDirectories

section Walk

theorem node?_dropLast (h : t.node? R = some (directory entries)) :
    ∃ around, t.node? R.dropLast = some (directory around) := by
  rcases R.eq_nil_or_concat with rfl | ⟨init, last, rfl⟩
  · exact ⟨entries, h⟩
  · rw [List.concat_eq_append, List.dropLast_concat]
    rw [List.concat_eq_append, node?_append] at h
    obtain ⟨node, hnode, hlast⟩ := Option.bind_eq_some_iff.mp h
    obtain ⟨around, rfl⟩ := exists_directory_of_node? hlast
    exact ⟨around, hnode⟩

/-- A walk finds a file or a place for one. -/
def Lands (t : FileTree) (reached ns names : List String) : Prop :=
  t.locateFrom reached ns = .free names ∨ ∃ text, t.locateFrom reached ns = .found names (file text)

/-- A name that is looked up in a directory. -/
structure IsEntryName (name : String) : Prop where
  ne_dot : name ≠ "."
  ne_dots : name ≠ ".."
  isFileName : isFileName name = true

theorem not_lands_nil (h : t.node? reached = some (directory entries)) :
    ¬ t.Lands reached [] names := by
  have hfound : t.locateFrom reached [] = .found reached (directory entries) :=
    locateFrom_nil_eq_found_iff.mpr ⟨rfl, h⟩
  rintro (hl | ⟨text, hl⟩) <;> simp [hfound] at hl

/-- A walk that lands is in a directory when it takes a step. -/
theorem Lands.exists_directory (h : t.Lands reached (name :: ns) names) :
    ∃ entries, t.node? reached = some (directory entries) := by
  by_contra hne
  simp [Lands, locateFrom_cons_of_not_directory (not_exists.mp hne)] at h

/-- The last step is taken in the directory that holds the file. -/
theorem lands_singleton (h : t.Lands reached [name] names)
    (hnode : t.node? reached = some (directory entries)) :
    IsEntryName name ∧ names = reached ++ [name] ∧
      ∀ below, Table.get? entries name ≠ some (directory below) := by
  by_cases hdot : name = "."
  · rw [Lands, locateFrom_cons hnode, if_pos (.inl hdot), enter, if_pos hdot] at h
    exact absurd h (not_lands_nil hnode)
  by_cases hdots : name = ".."
  · obtain ⟨around, haround⟩ := node?_dropLast hnode
    rw [Lands, locateFrom_cons hnode, if_pos (.inr (.inl hdots)), enter, if_neg hdot,
      if_pos hdots] at h
    exact absurd h (not_lands_nil haround)
  by_cases hname : isFileName name = true
  · rw [Lands, ← List.nil_append [name],
      locateFrom_append_singleton (locateFrom_nil_eq_found_iff.mpr ⟨rfl, hnode⟩) hdot hdots hname]
      at h
    refine ⟨⟨hdot, hdots, hname⟩, ?_⟩
    rcases hentry : Table.get? entries name with - | ⟨text⟩ | ⟨below⟩ <;> simp [hentry] at h
    · exact ⟨h.symm, by simp⟩
    · exact ⟨h.symm, by simp⟩
  · simp [Lands, locateFrom_cons hnode, CanEnter, hdot, hdots, hname] at h

theorem lands_cons (hne : ns ≠ []) (h : t.Lands reached (name :: ns) names)
    (hnode : t.node? reached = some (directory entries)) :
    CanEnter entries name ∧ t.Lands (enter reached name) ns names := by
  rw [Lands, locateFrom_cons hnode] at h
  by_cases henter : CanEnter entries name
  · rw [if_pos henter] at h
    exact ⟨henter, h⟩
  · rw [if_neg henter] at h
    cases hname : isFileName name <;> simp [hname, hne] at h

theorem Lands.exists_before (h : t.Lands reached ns names) (hne : ns ≠ []) :
    ∃ before name R entries, ns = before ++ [name] ∧
      t.locateFrom reached before = .found R (directory entries) ∧ IsEntryName name ∧
      names = R ++ [name] ∧ ∀ below, Table.get? entries name ≠ some (directory below) := by
  induction ns generalizing reached with
  | nil => contradiction
  | cons name ns ih =>
    by_cases hns : ns = []
    · subst hns
      obtain ⟨entries, hnode⟩ := h.exists_directory
      obtain ⟨hname, hnames, hfile⟩ := lands_singleton h hnode
      exact ⟨[], name, reached, entries, rfl, locateFrom_nil_eq_found_iff.mpr ⟨rfl, hnode⟩, hname,
        hnames, hfile⟩
    · obtain ⟨around, hnode⟩ := h.exists_directory
      obtain ⟨henter, hrest⟩ := lands_cons hns h hnode
      obtain ⟨before, last, R, entries, rfl, hfound, hlast⟩ := ih hrest hns
      exact ⟨name :: before, last, R, entries, rfl,
        locateFrom_cons_eq_found_iff.mpr ⟨around, hnode, henter, hfound⟩, hlast⟩

end Walk

/-- The path leads to a file, or to a place for one. -/
def LeadsTo (t : FileTree) (path : String) (names : List String) : Prop :=
  t.locate path = .free names ∨ ∃ text, t.locate path = .found names (file text)

/-- The path leads to an entry of a directory, by a name that is looked up there. -/
theorem leadsTo_iff (hroot : t.kind? [] = some .directory) :
    t.LeadsTo path names ↔ isPath path = true ∧ ∃ before name R entries,
      pathNames path = before ++ [name] ∧ t.locateFrom [] before = .found R (directory entries) ∧
        IsEntryName name ∧ names = R ++ [name] ∧ t.kind? names ≠ some .directory := by
  constructor
  · intro h
    by_cases hpath : isPath path = true
    · simp only [LeadsTo, locate, if_pos hpath] at h
      have hne : pathNames path ≠ [] := by
        intro he
        obtain ⟨entries, hnode⟩ := kind?_eq_directory_iff.mp hroot
        rw [he] at h
        exact not_lands_nil hnode h
      obtain ⟨before, name, R, entries, hnames, hfound, hname, rfl, hfile⟩ :=
        Lands.exists_before h hne
      exact ⟨hpath, before, name, R, entries, hnames, hfound, hname, rfl,
        (kind?_ne_directory_iff (node?_of_locateFrom hfound)).mpr hfile⟩
    · simp [LeadsTo, locate, hpath] at h
  · rintro ⟨hpath, before, name, R, entries, hnames, hfound, hname, rfl, hfile⟩
    rw [kind?_ne_directory_iff (node?_of_locateFrom hfound)] at hfile
    rw [LeadsTo, locate, if_pos hpath, hnames, locateFrom_append_singleton hfound hname.ne_dot
      hname.ne_dots hname.isFileName]
    rcases hentry : Table.get? entries name with - | ⟨text⟩ | ⟨below⟩
    · exact .inl rfl
    · exact .inr ⟨text, rfl⟩
    · exact absurd hentry (hfile below)

/-- As long as directories stay the destination of a path stays. -/
theorem LeadsTo.of_sameDirectories (h : t.LeadsTo path names) (hroot : t.kind? [] = some .directory)
    (hsame : SameDirectories t u) : u.LeadsTo path names := by
  obtain ⟨hpath, before, name, R, entries, hbefore, hfound, hname, rfl, hfile⟩ :=
    (leadsTo_iff hroot).mp h
  obtain ⟨entries', hnode⟩ := hsame.keepsDirectories R entries (node?_of_locateFrom hfound)
  exact (leadsTo_iff ((hsame []).mp hroot)).mpr ⟨hpath, before, name, R, entries', hbefore,
    locateFrom_of_keepsDirectories hsame.keepsDirectories hnode hfound, hname, rfl,
    mt (hsame _).mpr hfile⟩

theorem leadsTo_iff_of_sameDirectories (hroot : t.kind? [] = some .directory)
    (hsame : SameDirectories t u) : t.LeadsTo path names ↔ u.LeadsTo path names :=
  ⟨fun h => h.of_sameDirectories hroot hsame,
    fun h => h.of_sameDirectories ((hsame []).mp hroot) hsame.symm⟩

theorem LeadsTo.unique (h : t.LeadsTo path names) (h' : t.LeadsTo path other) : names = other := by
  rcases h with h | ⟨text, h⟩ <;> rcases h' with h' | ⟨text', h'⟩ <;> simp_all

/-- The last name of a destination ends as the path does. -/
theorem LeadsTo.exists_last (h : t.LeadsTo path names) (hroot : t.kind? [] = some .directory)
    {suffix : String} (hne : suffix ≠ "") (hslash : '/' ∉ suffix.toList)
    (hends : path.endsWith suffix = true) :
    ∃ R name, names = R ++ [name] ∧ suffix.toList <:+ name.toList := by
  obtain ⟨-, before, name, R, entries, hbefore, -, -, rfl, -⟩ := (leadsTo_iff hroot).mp h
  exact ⟨R, name, rfl, isSuffix_of_pathNames hne hslash hends hbefore⟩

/-- A plain name below a directory is looked up in that directory. -/
theorem LeadsTo.eq_append_singleton (h : t.LeadsTo (joinPath path name) names)
    (hname : IsPlainName name)
    (hR : t.locateFrom [] (partNames path) = .found R (directory entries)) :
    names = R ++ [name] := by
  rw [LeadsTo, HasDirectory.locate_joinPath hR hname] at h
  by_cases hc : canHold path name = true
  · rw [if_pos hc] at h
    rcases hentry : Table.get? entries name with - | node <;> simp [hentry] at h
    · exact h.symm
    · exact h.1.symm
  · simp [hc] at h

section Effects

/-- What is at the destination of a path. -/
theorem LeadsTo.locate_eq (h : t.LeadsTo path names) (hroot : t.kind? [] = some .directory) :
    t.kind? names = none ∧ t.locate path = .free names ∨
      ∃ text, t.kind? names = some (.file text) ∧ t.locate path = .found names (file text) := by
  obtain ⟨hpath, before, name, R, entries, hbefore, hfound, hname, rfl, -⟩ :=
    (leadsTo_iff hroot).mp h
  rw [LeadsTo, locate, if_pos hpath, hbefore, locateFrom_append_singleton hfound hname.ne_dot
    hname.ne_dots hname.isFileName] at h
  rw [kind?_append_singleton (node?_of_locateFrom hfound), locate, if_pos hpath, hbefore,
    locateFrom_append_singleton hfound hname.ne_dot hname.ne_dots hname.isFileName]
  rcases hentry : Table.get? entries name with - | ⟨text⟩ | ⟨below⟩
  · exact .inl ⟨rfl, rfl⟩
  · exact .inr ⟨text, rfl, rfl⟩
  · simp [hentry] at h

theorem LeadsTo.fileAt_eq (h : t.LeadsTo path names) (hroot : t.kind? [] = some .directory) :
    t.fileAt path = (t.kind? names).isSome := by
  rw [fileAt]
  rcases h.locate_eq hroot with ⟨hkind, hlocate⟩ | ⟨text, hkind, hlocate⟩ <;>
    rw [hkind, hlocate] <;> rfl

theorem LeadsTo.textAt?_eq (h : t.LeadsTo path names) (hroot : t.kind? [] = some .directory) :
    t.textAt? path =
      match t.kind? names with
      | some (.file text) => text
      | _ => none := by
  rw [textAt?]
  rcases h.locate_eq hroot with ⟨hkind, hlocate⟩ | ⟨text, hkind, hlocate⟩ <;> rw [hkind, hlocate]

theorem exists_leadsTo_of_fileAt (h : t.fileAt path = true) : ∃ names, t.LeadsTo path names := by
  rw [fileAt] at h
  split at h
  next names text hlocate => exact ⟨names, .inr ⟨text, hlocate⟩⟩
  next => contradiction

theorem LeadsTo.write?_eq (h : t.LeadsTo path names) :
    t.write? path text = some (t.put names (file text)) := by
  rw [write?]
  rcases h with h | ⟨old, h⟩ <;> rw [h]

theorem exists_leadsTo_of_write? (h : t.write? path text = some u) :
    ∃ names, t.LeadsTo path names ∧ u = t.put names (file text) := by
  rw [write?] at h
  split at h
  next names old hlocate => exact ⟨names, .inr ⟨old, hlocate⟩, (Option.some.inj h).symm⟩
  next names hlocate => exact ⟨names, .inl hlocate, (Option.some.inj h).symm⟩
  next => contradiction

/-- A removal takes a file away or does nothing. -/
theorem remove_cases (t : FileTree) (path : String) :
    (t.remove path).2 = t ∨ ∃ names, t.LeadsTo path names ∧ (t.remove path).2 = t.drop names := by
  rw [remove]
  split
  next names text hlocate => exact .inr ⟨names, .inr ⟨text, hlocate⟩, rfl⟩
  next => exact .inl rfl
  next => exact .inl rfl
  next => exact .inl rfl

theorem LeadsTo.kind?_put (h : t.LeadsTo path names) (hroot : t.kind? [] = some .directory)
    (text : Option String) (other : List String) :
    (t.put names (file text)).kind? other =
      if other = names then some (.file text) else t.kind? other := by
  obtain ⟨-, before, name, R, entries, -, hfound, -, rfl, hfile⟩ := (leadsTo_iff hroot).mp h
  have hnode := node?_of_locateFrom hfound
  rw [put_append_singleton, kind?_updateAt hnode ((kind?_ne_directory_iff hnode).mp hfile),
    Table.get?_insert, if_pos rfl]
  · rfl
  · simp [Table.get?_insert]
  · intro other ho
    rw [Table.get?_insert, if_neg ho.symm]

theorem LeadsTo.kind?_drop (h : t.LeadsTo path names) (hroot : t.kind? [] = some .directory)
    (other : List String) :
    (t.drop names).kind? other = if other = names then none else t.kind? other := by
  obtain ⟨-, before, name, R, entries, -, hfound, -, rfl, hfile⟩ := (leadsTo_iff hroot).mp h
  have hnode := node?_of_locateFrom hfound
  rw [drop_append_singleton, kind?_updateAt hnode ((kind?_ne_directory_iff hnode).mp hfile),
    Table.get?_erase, if_pos rfl]
  · rfl
  · simp [Table.get?_erase]
  · intro other ho
    rw [Table.get?_erase, if_neg ho.symm]

/-- A change at one destination, which is no directory before or after, leaves the directories. -/
theorem sameDirectories_of_kind?_eq {k : Option Kind} (hold : t.kind? names ≠ some .directory)
    (hnew : k ≠ some .directory)
    (h : ∀ other, u.kind? other = if other = names then k else t.kind? other) :
    SameDirectories t u := by
  intro other
  rw [h]
  by_cases he : other = names
  · rw [if_pos he, he]
    exact iff_of_false hold hnew
  · rw [if_neg he]

theorem LeadsTo.kind?_ne_directory (h : t.LeadsTo path names)
    (hroot : t.kind? [] = some .directory) : t.kind? names ≠ some .directory := by
  rcases h.locate_eq hroot with ⟨hkind, -⟩ | ⟨text, hkind, -⟩ <;> simp [hkind]

theorem LeadsTo.sameDirectories_put (h : t.LeadsTo path names)
    (hroot : t.kind? [] = some .directory) (text : Option String) :
    SameDirectories t (t.put names (file text)) :=
  sameDirectories_of_kind?_eq (h.kind?_ne_directory hroot) (by simp) (h.kind?_put hroot text)

theorem LeadsTo.textAt?_put (h : t.LeadsTo path names) (hroot : t.kind? [] = some .directory)
    (text : Option String) : (t.put names (file text)).textAt? path = text := by
  have hsame := h.sameDirectories_put hroot text
  rw [(h.of_sameDirectories hroot hsame).textAt?_eq ((hsame []).mp hroot), h.kind?_put hroot,
    if_pos rfl]

theorem LeadsTo.sameDirectories_drop (h : t.LeadsTo path names)
    (hroot : t.kind? [] = some .directory) : SameDirectories t (t.drop names) :=
  sameDirectories_of_kind?_eq (h.kind?_ne_directory hroot) (by simp) (h.kind?_drop hroot)

theorem sameDirectories_remove (hroot : t.kind? [] = some .directory) (path : String) :
    SameDirectories t (t.remove path).2 := by
  rcases t.remove_cases path with hsame | ⟨names, hleads, hdrop⟩
  · rw [hsame]
    exact .refl t
  · rw [hdrop]
    exact hleads.sameDirectories_drop hroot

/-- A removal takes away only what is at the destination of its path. -/
theorem kind?_remove_of_not_leadsTo (hroot : t.kind? [] = some .directory)
    (h : ¬ t.LeadsTo path names) : (t.remove path).2.kind? names = t.kind? names := by
  rcases t.remove_cases path with hsame | ⟨gone, hleads, hdrop⟩
  · rw [hsame]
  · rw [hdrop, hleads.kind?_drop hroot, if_neg]
    rintro rfl
    exact h hleads

end Effects

/-- A path to nothing but directories is no path to a file. -/
theorem textAt?_eq_none_of_not_leadsTo (h : ¬ ∃ names, t.LeadsTo path names) :
    t.fileAt path = false ∧ t.textAt? path = none := by
  have hfile := Bool.eq_false_iff.mpr (mt exists_leadsTo_of_fileAt h)
  refine ⟨hfile, ?_⟩
  by_contra hne
  obtain ⟨text, htext⟩ := Option.ne_none_iff_exists'.mp hne
  exact Bool.false_ne_true (hfile.symm.trans (fileAt_of_textAt? htext))

/-- As long as directories stay a file can be changed at its destination only. -/
theorem file_eq_of_sameDirectories (hroot : t.kind? [] = some .directory)
    (hsame : SameDirectories t u)
    (h : ∀ names, t.LeadsTo path names → u.kind? names = t.kind? names) :
    u.fileAt path = t.fileAt path ∧ u.textAt? path = t.textAt? path := by
  by_cases hleads : ∃ names, t.LeadsTo path names
  · obtain ⟨names, hleads⟩ := hleads
    have hleads' := hleads.of_sameDirectories hroot hsame
    have hroot' := (hsame []).mp hroot
    rw [hleads.fileAt_eq hroot, hleads'.fileAt_eq hroot', hleads.textAt?_eq hroot,
      hleads'.textAt?_eq hroot', h names hleads]
    exact ⟨rfl, rfl⟩
  · have hleads' : ¬ ∃ names, u.LeadsTo path names := by
      simpa only [leadsTo_iff_of_sameDirectories hroot hsame] using hleads
    obtain ⟨hfile, htext⟩ := textAt?_eq_none_of_not_leadsTo hleads
    obtain ⟨hfile', htext'⟩ := textAt?_eq_none_of_not_leadsTo hleads'
    exact ⟨hfile'.trans hfile.symm, htext'.trans htext.symm⟩

section Entries

/-- What a path leads to. -/
def nodeAt? (t : FileTree) (path : String) : Option FileTree :=
  match t.locate path with
  | .found _ node => some node
  | _ => none

theorem textAt?_of_nodeAt? (h : t.nodeAt? path = some (file text)) : t.textAt? path = text := by
  rw [nodeAt?] at h
  rw [textAt?]
  split at h
  next found hlocate =>
    obtain rfl := Option.some.inj h
    rw [hlocate]
  next => cases h

theorem LeadsTo.exists_hasDirectory (h : t.LeadsTo (joinPath path name) names)
    (hname : IsPlainName name) : ∃ entries, t.HasDirectory path entries := by
  have hlands : t.Lands [] (partNames path ++ [name]) names := by
    rw [LeadsTo, locate, hname.pathNames_joinPath] at h
    split at h
    · exact h
    · simp at h
  obtain ⟨before, last, R, entries, hbefore, hfound, -⟩ := hlands.exists_before (by simp)
  obtain ⟨rfl, -⟩ := List.append_inj' hbefore rfl
  exact ⟨entries, R, hfound⟩

theorem exists_hasDirectory_of_nodeAt? (h : t.nodeAt? (joinPath path name) = some node)
    (hname : IsPlainName name) : ∃ entries, t.HasDirectory path entries := by
  rw [nodeAt?] at h
  split at h
  next R found hlocate =>
    cases found with
    | file text => exact LeadsTo.exists_hasDirectory (.inr ⟨text, hlocate⟩) hname
    | directory below =>
      rw [locate, hname.pathNames_joinPath] at hlocate
      split at hlocate
      · obtain ⟨R', entries, hR'⟩ := exists_locateFrom_of_append hlocate
        exact ⟨entries, R', hR'⟩
      · cases hlocate
  next => cases h

theorem HasDirectory.nodeAt?_eq (h : t.HasDirectory path entries) (hname : IsPlainName name) :
    t.nodeAt? (joinPath path name) =
      if canHold path name then Table.get? entries name else none := by
  obtain ⟨R, hR⟩ := h
  rw [nodeAt?, locate_joinPath hR hname]
  by_cases hc : canHold path name = true
  · rw [if_pos hc, if_pos hc]
    cases Table.get? entries name <;> rfl
  · rw [if_neg hc, if_neg hc]

/-- A removal that does not fail changes one entry at most. -/
theorem nodeAt?_remove {removed : String} (hremoved : IsPlainName removed)
    (hname : IsPlainName name) (hdone : (t.remove (joinPath path removed)).1 ≠ .failed) :
    (t.remove (joinPath path removed)).2.nodeAt? (joinPath path name) =
      if name = removed then none else t.nodeAt? (joinPath path name) := by
  by_cases hhas : ∃ entries, t.HasDirectory path entries
  · obtain ⟨entries, hhas⟩ := hhas
    rcases hhas.remove hremoved with ⟨hfailed, -⟩ | ⟨-, hafter, -⟩
    · exact absurd hfailed hdone
    rw [hafter.nodeAt?_eq hname, hhas.nodeAt?_eq hname, Table.get?_erase]
    by_cases he : name = removed
    · simp [he]
    · rw [if_neg he, if_neg (Ne.symm he)]
  · -- there is no such directory, so that nothing is found or changed
    have hnone : t.nodeAt? (joinPath path name) = none := by
      by_contra hsome
      obtain ⟨node, hnode⟩ := Option.ne_none_iff_exists'.mp hsome
      exact hhas (exists_hasDirectory_of_nodeAt? hnode hname)
    have hsame : (t.remove (joinPath path removed)).2 = t := by
      rcases t.remove_cases (joinPath path removed) with hsame | ⟨names, hleads, -⟩
      · exact hsame
      · exact absurd (hleads.exists_hasDirectory hremoved) hhas
    rw [hsame, hnone, ite_self]

theorem nodeAt?_write? {written : String} (hwritten : IsPlainName written)
    (hname : IsPlainName name) (hw : t.write? (joinPath path written) text = some u) :
    u.nodeAt? (joinPath path name) =
      if name = written then some (file text) else t.nodeAt? (joinPath path name) := by
  obtain ⟨names, hleads, -⟩ := exists_leadsTo_of_write? hw
  obtain ⟨entries, hhas⟩ := hleads.exists_hasDirectory hwritten
  obtain ⟨hafter, hhold, -⟩ := hhas.write? hwritten hw
  rw [hafter.nodeAt?_eq hname, hhas.nodeAt?_eq hname, Table.get?_insert]
  by_cases he : name = written
  · subst he
    rw [if_pos rfl, if_pos rfl, if_pos hhold]
  · rw [if_neg he, if_neg (Ne.symm he)]

end Entries

end Bindable.FileTree
