import Bindable.Proofs.Files.Path
import Bindable.Proofs.Table
import Mathlib.Data.List.DropRight

/-! A directory seen through a path. Writing and removing a file of the directory changes one of
its entries; all directories stay where they are, so that the path leads to the same directory as
before. -/

namespace Bindable

namespace FileTree

variable {root t : FileTree} {names more reached R : List String} {node : FileTree}
  {entries entries' : List (String × FileTree)} {name : String}

section Update

/-- The tree with the entries of the directory at the end of a list of names changed. -/
def updateAt (change : List (String × FileTree) → List (String × FileTree)) (t : FileTree)
    (names : List String) : FileTree :=
  match names, t with
  | _, file text => file text
  | [], directory entries => directory (change entries)
  | name :: rest, directory entries =>
    match Table.get? entries name with
    | some child => directory (Table.insert name (child.updateAt change rest) entries)
    | none => directory entries

theorem put_append_singleton (t : FileTree) (names : List String) (name : String)
    (node : FileTree) :
    t.put (names ++ [name]) node = t.updateAt (Table.insert name node) names := by
  induction names generalizing t with
  | nil => cases t <;> rfl
  | cons first rest ih =>
    cases t with
    | file text => cases rest <;> rfl
    | directory entries =>
      obtain ⟨second, others, ho⟩ := List.exists_cons_of_ne_nil (List.append_ne_nil_of_right_ne_nil
        rest (List.cons_ne_nil name []))
      rw [List.cons_append, ho, put, updateAt, ← ho]
      · cases Table.get? entries first with
        | none => rfl
        | some child => simp only [ih]
      · simp

theorem drop_append_singleton (t : FileTree) (names : List String) (name : String) :
    t.drop (names ++ [name]) = t.updateAt (Table.erase name) names := by
  induction names generalizing t with
  | nil => cases t <;> rfl
  | cons first rest ih =>
    cases t with
    | file text => cases rest <;> rfl
    | directory entries =>
      obtain ⟨second, others, ho⟩ := List.exists_cons_of_ne_nil (List.append_ne_nil_of_right_ne_nil
        rest (List.cons_ne_nil name []))
      rw [List.cons_append, ho, drop, updateAt, ← ho]
      · cases Table.get? entries first with
        | none => rfl
        | some child => simp only [ih]
      · simp

theorem node?_updateAt {change : List (String × FileTree) → List (String × FileTree)}
    (h : t.node? R = some (directory entries)) :
    (t.updateAt change R).node? R = some (directory (change entries)) := by
  induction R generalizing t with
  | nil =>
    obtain rfl : t = directory entries := Option.some.inj h
    rfl
  | cons first rest ih =>
    cases t with
    | file text => simp [node?, child?] at h
    | directory around =>
      obtain ⟨child, hchild, hrest⟩ := Option.bind_eq_some_iff.mp h
      have hchild : Table.get? around first = some child := hchild
      simp only [updateAt, hchild, node?, child?, Table.get?_insert, if_true, Option.bind_some]
      exact ih hrest

theorem updateAt_updateAt {before after : List (String × FileTree) → List (String × FileTree)}
    (t : FileTree) (R : List String) :
    (t.updateAt before R).updateAt after R =
      t.updateAt (fun entries => after (before entries)) R := by
  induction R generalizing t with
  | nil => cases t <;> rfl
  | cons first rest ih =>
    cases t with
    | file text => rfl
    | directory around =>
      cases hchild : Table.get? around first with
      | none => simp only [updateAt, hchild]
      | some child =>
        simp only [updateAt, hchild, Table.get?_insert, if_true, ih, Table.insert_insert]

/-- Where a directory was there is a directory. -/
def KeepsDirectories (t t' : FileTree) : Prop :=
  ∀ names entries, t.node? names = some (directory entries) →
    ∃ entries', t'.node? names = some (directory entries')

theorem exists_directory_of_node? (h : t.node? names = some (directory entries)) :
    ∃ entries', t = directory entries' := by
  cases t with
  | directory entries' => exact ⟨entries', rfl⟩
  | file text => cases names <;> simp [node?, child?] at h

theorem keepsDirectories_updateAt
    {change : List (String × FileTree) → List (String × FileTree)}
    (h : t.node? R = some (directory entries))
    (hchange : ∀ name below, Table.get? entries name = some (directory below) →
      Table.get? (change entries) name = some (directory below)) :
    KeepsDirectories t (t.updateAt change R) := by
  induction R generalizing t with
  | nil =>
    obtain rfl : t = directory entries := Option.some.inj h
    intro names below hnames
    cases names with
    | nil => exact ⟨_, rfl⟩
    | cons name names =>
      obtain ⟨child, hchild, hrest⟩ := Option.bind_eq_some_iff.mp hnames
      obtain ⟨under, rfl⟩ := exists_directory_of_node? hrest
      have hkept : Table.get? (change entries) name = some (directory under) := hchange _ _ hchild
      refine ⟨below, ?_⟩
      simpa only [updateAt, node?, child?, hkept, Option.bind_some] using hrest
  | cons first rest ih =>
    obtain ⟨around, rfl⟩ := exists_directory_of_node? h
    obtain ⟨child, hchild, hrest⟩ := Option.bind_eq_some_iff.mp h
    have hchild : Table.get? around first = some child := hchild
    intro names below hnames
    simp only [updateAt, hchild]
    cases names with
    | nil => exact ⟨_, rfl⟩
    | cons name names =>
      simp only [node?, child?, Table.get?_insert] at hnames ⊢
      by_cases he : first = name
      · subst he
        rw [hchild, Option.bind_some] at hnames
        rw [if_pos rfl, Option.bind_some]
        exact ih hrest names below hnames
      · rw [if_neg he]
        exact ⟨below, hnames⟩

end Update

section Walk

theorem node?_append (t : FileTree) (names more : List String) :
    t.node? (names ++ more) = (t.node? names).bind (node? more) := by
  induction names generalizing t with
  | nil => rfl
  | cons name names ih =>
    simp only [List.cons_append, node?]
    cases t.child? name with
    | none => rfl
    | some child => exact ih child

theorem node?_append_singleton (h : t.node? R = some (directory entries)) (name : String) :
    t.node? (R ++ [name]) = Table.get? entries name := by
  rw [node?_append, h, Option.bind_some]
  simp only [node?, child?]
  cases Table.get? entries name <;> rfl

def enter (reached : List String) (name : String) : List String :=
  if name = "." then reached else if name = ".." then reached.dropLast else reached ++ [name]

def CanEnter (entries : List (String × FileTree)) (name : String) : Prop :=
  name = "." ∨ name = ".." ∨ isFileName name = true ∧ (Table.get? entries name).isSome

instance : Decidable (CanEnter entries name) := inferInstanceAs (Decidable (_ ∨ _ ∨ _ ∧ _))

theorem canEnter_iff (hdot : name ≠ ".") (hdots : name ≠ "..") (hname : isFileName name = true) :
    CanEnter entries name ↔ (Table.get? entries name).isSome := by
  simp [CanEnter, hdot, hdots, hname]

/-- A step that is taken in a directory. -/
theorem locateFrom_cons (hnode : root.node? reached = some (directory entries)) :
    root.locateFrom reached (name :: names) =
      if CanEnter entries name then root.locateFrom (enter reached name) names
      else if isFileName name = false then .blocked
      else if names = [] then .free (reached ++ [name])
      else .missing := by
  rw [locateFrom, hnode, enter]
  by_cases hdot : name = "."
  · simp [CanEnter, hdot]
  by_cases hdots : name = ".."
  · simp [CanEnter, hdots]
  by_cases hname : isFileName name = true
  · simp [canEnter_iff hdot hdots hname, hdot, hdots, hname]
  · simp [CanEnter, hdot, hdots, hname]

theorem locateFrom_cons_of_not_directory
    (h : ∀ entries, root.node? reached ≠ some (directory entries)) :
    root.locateFrom reached (name :: names) = .blocked := by
  rw [locateFrom]
  split
  next entries hnode => exact absurd hnode (h entries)
  next => rfl

/-- A walk that finds something takes its first step in a directory and goes on from there. -/
theorem locateFrom_cons_eq_found_iff :
    root.locateFrom reached (name :: names) = .found R node ↔
      ∃ entries, root.node? reached = some (directory entries) ∧ CanEnter entries name ∧
        root.locateFrom (enter reached name) names = .found R node := by
  by_cases hdirectory : ∃ entries, root.node? reached = some (directory entries)
  · obtain ⟨entries, hnode⟩ := hdirectory
    rw [locateFrom_cons hnode]
    by_cases henter : CanEnter entries name
    · simp [hnode, henter]
    · cases isFileName name <;> by_cases hlast : names = [] <;> simp [hnode, henter, hlast]
  · rw [locateFrom_cons_of_not_directory (not_exists.mp hdirectory)]
    constructor
    · rintro ⟨⟩
    · rintro ⟨entries, hnode, -⟩
      exact absurd ⟨entries, hnode⟩ hdirectory

theorem locateFrom_nil_eq_found_iff :
    root.locateFrom reached [] = .found R node ↔ reached = R ∧ root.node? R = some node := by
  rw [locateFrom]
  constructor
  · intro h
    split at h
    next found hf =>
      obtain ⟨rfl, rfl⟩ := Place.found.inj h
      exact ⟨rfl, hf⟩
    next => contradiction
  · rintro ⟨rfl, h⟩
    rw [h]

theorem node?_of_locateFrom (h : root.locateFrom reached names = .found R node) :
    root.node? R = some node := by
  induction names generalizing reached with
  | nil => exact (locateFrom_nil_eq_found_iff.mp h).2
  | cons name names ih =>
    obtain ⟨entries, -, -, hrest⟩ := locateFrom_cons_eq_found_iff.mp h
    exact ih hrest

theorem exists_node?_of_locateFrom
    (h : root.locateFrom reached names = .found R (directory entries)) :
    ∃ entries', root.node? reached = some (directory entries') := by
  cases names with
  | nil =>
    obtain ⟨rfl, hnode⟩ := locateFrom_nil_eq_found_iff.mp h
    exact ⟨entries, hnode⟩
  | cons name names =>
    obtain ⟨entries', hnode, -⟩ := locateFrom_cons_eq_found_iff.mp h
    exact ⟨entries', hnode⟩

theorem locateFrom_append (h : root.locateFrom reached names = .found R node)
    (more : List String) :
    root.locateFrom reached (names ++ more) = root.locateFrom R more := by
  induction names generalizing reached with
  | nil =>
    obtain ⟨rfl, -⟩ := locateFrom_nil_eq_found_iff.mp h
    rfl
  | cons name names ih =>
    obtain ⟨entries, hnode, henter, hrest⟩ := locateFrom_cons_eq_found_iff.mp h
    rw [← ih hrest, List.cons_append, locateFrom_cons hnode, if_pos henter]

/-- A last name that stands for itself is looked up in the directory the names before it lead to. -/
theorem locateFrom_append_singleton
    (h : root.locateFrom reached names = .found R (directory entries)) (hdot : name ≠ ".")
    (hdots : name ≠ "..") (hname : isFileName name = true) :
    root.locateFrom reached (names ++ [name]) =
      match Table.get? entries name with
      | some node => .found (R ++ [name]) node
      | none => .free (R ++ [name]) := by
  have hnode := node?_of_locateFrom h
  have hentry := node?_append_singleton hnode name
  rw [locateFrom_append h, locateFrom_cons hnode]
  simp only [canEnter_iff hdot hdots hname]
  cases hget : Table.get? entries name with
  | none => simp [hname]
  | some node =>
    rw [Option.isSome_some, if_pos rfl, enter, if_neg hdot, if_neg hdots]
    exact locateFrom_nil_eq_found_iff.mpr ⟨rfl, hentry.trans hget⟩

theorem exists_locateFrom_of_append
    (h : root.locateFrom reached (names ++ more) = .found R (directory entries)) :
    ∃ R' entries', root.locateFrom reached names = .found R' (directory entries') := by
  induction names generalizing reached with
  | nil =>
    obtain ⟨entries', hnode⟩ := exists_node?_of_locateFrom h
    exact ⟨reached, entries', locateFrom_nil_eq_found_iff.mpr ⟨rfl, hnode⟩⟩
  | cons name names ih =>
    obtain ⟨around, hnode, henter, hrest⟩ := locateFrom_cons_eq_found_iff.mp h
    obtain ⟨R', entries', hfound⟩ := ih hrest
    exact ⟨R', entries', locateFrom_cons_eq_found_iff.mpr ⟨around, hnode, henter, hfound⟩⟩

/-- A walk to a directory leads to the same place as long as directories stay. -/
theorem locateFrom_of_keepsDirectories {root' : FileTree} (hkeeps : KeepsDirectories root root')
    (hnode' : root'.node? R = some (directory entries'))
    (h : root.locateFrom reached names = .found R (directory entries)) :
    root'.locateFrom reached names = .found R (directory entries') := by
  induction names generalizing reached with
  | nil =>
    obtain ⟨rfl, -⟩ := locateFrom_nil_eq_found_iff.mp h
    exact locateFrom_nil_eq_found_iff.mpr ⟨rfl, hnode'⟩
  | cons name names ih =>
    obtain ⟨around, hnode, henter, hrest⟩ := locateFrom_cons_eq_found_iff.mp h
    obtain ⟨around', haround'⟩ := hkeeps _ _ hnode
    refine locateFrom_cons_eq_found_iff.mpr ⟨around', haround', ?_, ih hrest⟩
    rcases henter with rfl | rfl | ⟨hname, hentry⟩
    · exact .inl rfl
    · exact .inr (.inl rfl)
    by_cases hdot : name = "."
    · exact .inl hdot
    by_cases hdots : name = ".."
    · exact .inr (.inl hdots)
    obtain ⟨below, hbelow⟩ := exists_node?_of_locateFrom hrest
    obtain ⟨below', hbelow'⟩ := hkeeps _ _ hbelow
    rw [enter, if_neg hdot, if_neg hdots, node?_append_singleton haround'] at hbelow'
    exact .inr (.inr ⟨hname, by rw [hbelow']; rfl⟩)

theorem makeFrom_of_locateFrom (h : root.locateFrom reached names = .found R (directory entries)) :
    root.makeFrom reached names = (true, root) := by
  induction names generalizing reached with
  | nil =>
    obtain ⟨rfl, hnode⟩ := locateFrom_nil_eq_found_iff.mp h
    rw [makeFrom, hnode]
    rfl
  | cons name names ih =>
    obtain ⟨around, hnode, henter, hrest⟩ := locateFrom_cons_eq_found_iff.mp h
    have ih := ih hrest
    rw [makeFrom, hnode]
    rw [enter] at ih
    by_cases hdot : name = "."
    · simpa [hdot] using ih
    by_cases hdots : name = ".."
    · simpa [hdots] using ih
    obtain ⟨hname, hentry⟩ := (henter.resolve_left hdot).resolve_left hdots
    simpa [hdot, hdots, hname, hentry] using ih

end Walk

/-- The path leads to a directory with these entries. -/
def HasDirectory (root : FileTree) (path : String) (entries : List (String × FileTree)) : Prop :=
  ∃ R, root.locateFrom [] (partNames path) = .found R (directory entries)

/-- A directory can hold a file of this name. -/
def canHold (path name : String) : Bool := isPath (joinPath path name) && isFileName name

namespace HasDirectory

variable {path : String} {text : Option String}

theorem locate_joinPath (h : root.locateFrom [] (partNames path) = .found R (directory entries))
    (hname : IsPlainName name) : root.locate (joinPath path name) =
      if canHold path name then
        match Table.get? entries name with
        | some node => .found (R ++ [name]) node
        | none => .free (R ++ [name])
      else .blocked := by
  rw [locate, canHold, hname.pathNames_joinPath]
  by_cases hpath : isPath (joinPath path name) = true
  · by_cases hfile : isFileName name = true
    · simp [locateFrom_append_singleton h hname.ne_dot hname.ne_dots hfile, hpath, hfile]
    · rw [locateFrom_append h, locateFrom_cons (node?_of_locateFrom h)]
      simp [CanEnter, hpath, hfile, hname.ne_dot, hname.ne_dots]
  · simp [hpath]

theorem locateFrom_updateAt
    (h : root.locateFrom [] (partNames path) = .found R (directory entries))
    {f : List (String × FileTree) → List (String × FileTree)}
    (hf : ∀ name below, Table.get? entries name = some (directory below) →
      Table.get? (f entries) name = some (directory below)) :
    (root.updateAt f R).locateFrom [] (partNames path) = .found R (directory (f entries)) := by
  have hnode := node?_of_locateFrom h
  exact locateFrom_of_keepsDirectories (keepsDirectories_updateAt hnode hf) (node?_updateAt hnode) h

theorem change (h : root.locateFrom [] (partNames path) = .found R (directory entries))
    {f : List (String × FileTree) → List (String × FileTree)}
    (hf : ∀ name below, Table.get? entries name = some (directory below) →
      Table.get? (f entries) name = some (directory below)) :
    (root.updateAt f R).HasDirectory path (f entries) :=
  ⟨R, locateFrom_updateAt h hf⟩

theorem textAt?_eq (h : root.HasDirectory path entries) (hname : IsPlainName name) :
    root.textAt? (joinPath path name) =
      if canHold path name then
        match Table.get? entries name with
        | some (file text) => text
        | _ => none
      else none := by
  obtain ⟨R, hR⟩ := h
  rw [textAt?, locate_joinPath hR hname]
  by_cases hc : canHold path name = true
  · rw [if_pos hc, if_pos hc]
    rcases Table.get? entries name with - | ⟨text⟩ | ⟨below⟩ <;> rfl
  · rw [if_neg hc, if_neg hc]

theorem fileAt_eq (h : root.HasDirectory path entries) (hname : IsPlainName name) :
    root.fileAt (joinPath path name) =
      (canHold path name &&
        ((Table.get? entries name).map fun t => !t.isDirectory).getD false) := by
  obtain ⟨R, hR⟩ := h
  rw [fileAt, locate_joinPath hR hname]
  by_cases hc : canHold path name = true
  · rw [if_pos hc, hc, Bool.true_and]
    rcases Table.get? entries name with - | ⟨text⟩ | ⟨below⟩ <;> rfl
  · rw [if_neg hc, Bool.eq_false_iff.mpr hc, Bool.false_and]

theorem write?_eq (h : root.locateFrom [] (partNames path) = .found R (directory entries))
    (hname : IsPlainName name) (hw : root.write? (joinPath path name) text = some t) :
    t = root.updateAt (Table.insert name (file text)) R ∧
      t.locateFrom [] (partNames path) =
        .found R (directory (Table.insert name (file text) entries)) ∧
      canHold path name = true ∧ ∀ below, Table.get? entries name ≠ some (directory below) := by
  rw [FileTree.write?, locate_joinPath h hname] at hw
  by_cases hc : canHold path name = true
  · rw [if_pos hc] at hw
    have hfile : ∀ below, Table.get? entries name ≠ some (directory below) := by
      intro below hb
      rw [hb] at hw
      contradiction
    have ht : t = root.put (R ++ [name]) (file text) := by
      rcases hg : Table.get? entries name with - | ⟨old⟩ | ⟨below⟩
      · rw [hg] at hw
        exact (Option.some.inj hw).symm
      · rw [hg] at hw
        exact (Option.some.inj hw).symm
      · exact absurd hg (hfile below)
    rw [put_append_singleton] at ht
    refine ⟨ht, ?_, hc, hfile⟩
    rw [ht]
    apply locateFrom_updateAt h
    intro other below hb
    rw [Table.get?_insert, if_neg, hb]
    rintro rfl
    exact hfile below hb
  · rw [if_neg hc] at hw
    contradiction

theorem write? (h : root.HasDirectory path entries) (hname : IsPlainName name)
    (hw : root.write? (joinPath path name) text = some t) :
    t.HasDirectory path (Table.insert name (file text) entries) ∧ canHold path name = true ∧
      ∀ below, Table.get? entries name ≠ some (directory below) := by
  obtain ⟨R, hR⟩ := h
  obtain ⟨-, hlocated, hc, hfile⟩ := write?_eq hR hname hw
  exact ⟨⟨R, hlocated⟩, hc, hfile⟩

/-- Writing the same once more changes nothing. -/
theorem write?_write? (h : root.HasDirectory path entries) (hname : IsPlainName name)
    (hw : root.write? (joinPath path name) text = some t) :
    t.write? (joinPath path name) text = some t := by
  obtain ⟨R, hR⟩ := h
  obtain ⟨ht, hlocated, hc, -⟩ := write?_eq hR hname hw
  rw [FileTree.write?, locate_joinPath hlocated hname, if_pos hc, Table.get?_insert, if_pos rfl]
  simp only [ht, put_append_singleton, updateAt_updateAt, Table.insert_insert]

theorem remove (h : root.HasDirectory path entries) (hname : IsPlainName name) :
    (root.remove (joinPath path name)).1 = .failed ∧ (root.remove (joinPath path name)).2 = root ∨
      (root.remove (joinPath path name)).1 ≠ .failed ∧
        (root.remove (joinPath path name)).2.HasDirectory path (Table.erase name entries) ∧
          ∀ below, Table.get? entries name ≠ some (directory below) := by
  have hroot := h
  obtain ⟨R, hR⟩ := h
  rw [FileTree.remove, locate_joinPath hR hname]
  by_cases hc : canHold path name = true
  · rw [if_pos hc]
    rcases hg : Table.get? entries name with - | ⟨text⟩ | ⟨below⟩
    · refine .inr ⟨by simp, ?_, by simp⟩
      rw [Table.erase_eq_self hg]
      exact hroot
    · refine .inr ⟨by simp, ?_, by simp⟩
      show (root.drop (R ++ [name])).HasDirectory path _
      rw [drop_append_singleton]
      apply change hR
      intro other below hb
      rw [Table.get?_erase, if_neg, hb]
      rintro rfl
      simp [hg] at hb
    · exact .inl ⟨rfl, rfl⟩
  · rw [if_neg hc]
    exact .inl ⟨rfl, rfl⟩

theorem directoryAt (h : root.HasDirectory path entries) (hpath : isPath path = true) :
    root.directoryAt path = true := by
  obtain ⟨R, hR⟩ := h
  have hdot : root.locateFrom [] (partNames path ++ ["."]) = .found R (directory entries) := by
    rw [locateFrom_append hR, locateFrom_cons (node?_of_locateFrom hR), if_pos (.inl rfl)]
    exact locateFrom_nil_eq_found_iff.mpr ⟨rfl, node?_of_locateFrom hR⟩
  have hnames : root.locateFrom [] (pathNames path) = .found R (directory entries) := by
    simp only [pathNames]
    split
    · exact hdot
    · exact hR
  rw [FileTree.directoryAt, locate, if_pos hpath, hnames]

theorem namesAround_isPrefix (names : List String) : namesAround names <+: names := by
  have hbody : (names.reverse.dropWhile (· = ".")).reverse <+: names := List.rdropWhile_prefix _ _
  have hlast : ∀ body : List String, body.dropLast <+: body := List.dropLast_prefix
  simp only [namesAround]
  split
  · exact hbody
  · exact (hlast _).trans hbody

/-- A directory that is there is not created again. -/
theorem makeDirectories (h : root.HasDirectory path entries) (hpath : isPath path = true) :
    root.makeDirectories path = (true, root) := by
  have hat := h.directoryAt hpath
  obtain ⟨R, hR⟩ := h
  simp only [FileTree.makeDirectories, hpath, Bool.not_true, if_neg Bool.false_ne_true]
  split
  · obtain ⟨more, hmore⟩ := namesAround_isPrefix (partNames path)
    obtain ⟨R', entries', hR'⟩ := exists_locateFrom_of_append (hmore.symm ▸ hR)
    rw [makeFrom_of_locateFrom hR', hat, Bool.true_and]
  · exact makeFrom_of_locateFrom hR

end HasDirectory

theorem remove_of_failed {path : String} (h : (t.remove path).1 = .failed) :
    (t.remove path).2 = t := by
  rw [remove] at h ⊢
  split at h
  · cases h
  · rfl
  · rfl
  · rfl

theorem fileAt_of_textAt? {path text : String} (h : t.textAt? path = some text) :
    t.fileAt path = true := by
  unfold textAt? at h
  unfold fileAt
  split at h
  next => rfl
  next => contradiction

theorem isPath_of_makeDirectories {path : String} (h : root.makeDirectories path = (true, t)) :
    isPath path = true := by
  cases hp : isPath path with
  | true => rfl
  | false =>
    simp only [makeDirectories, hp, Bool.not_false, if_true, Prod.mk.injEq] at h
    exact absurd h.1 Bool.false_ne_true

end FileTree

end Bindable
