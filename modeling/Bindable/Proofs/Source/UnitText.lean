import Bindable.Proofs.Source.OneLine

/-! The text of a unit and its lines. As long as no text of the unit has a line break of its own, the
lines that are printed are read back from the text, and lines are deleted from the text as they are
from the list. -/

namespace Bindable

namespace FieldMember

def texts (f : FieldMember) : List String :=
  f.attributes ++ f.modifiers ++ [f.type, f.name] ++ f.initializer.texts

end FieldMember

namespace AccessorBody

def texts (a : AccessorBody) : List String := a.modifiers ++ a.body.texts

end AccessorBody

namespace PropertyMember

def texts (p : PropertyMember) : List String :=
  p.attributes ++ p.modifiers ++ [p.type, p.name] ++ p.getter.texts ++
    p.setter.toList.flatMap (·.texts)

end PropertyMember

namespace MethodMember

def texts (m : MethodMember) : List String :=
  m.attributes ++ m.modifiers ++ [m.returnType, m.name] ++
    m.parameters.flatMap (fun p => [p.type, p.name]) ++ m.body.toList.flatMap (·.texts)

end MethodMember

/-- The texts of a member other than the contents of its string literals. -/
def Member.texts : Member → List String
  | field f => f.texts
  | property p => p.texts
  | method m => m.texts

def Wrapper.texts (w : Wrapper) : List String := w.keyword :: w.name :: w.typeParameters

def SourceUnit.texts (u : SourceUnit) : List String :=
  u.namespaceName.toList ++ u.wrappers.flatMap (·.texts) ++ u.members.flatMap (·.texts)

section Lines

variable {depth : Nat}

theorem oneLine_attributeLines {attributes : List String} (h : ∀ a ∈ attributes, OneLine a) :
    ∀ l ∈ attributeLines depth attributes, OneLine l.text := by
  intro l hl
  obtain ⟨a, ha, rfl⟩ := List.mem_map.mp hl
  simp only [oneLine_append, h a ha]
  decide

theorem argumentLines_cons_cons (a a' : String) (rest : List String) :
    argumentLines depth (a :: a' :: rest) =
      { depth, text := a ++ "," } :: argumentLines depth (a' :: rest) := rfl

theorem oneLine_argumentLines {arguments : List String} (h : ∀ a ∈ arguments, OneLine a) :
    ∀ l ∈ argumentLines depth arguments, OneLine l.text := by
  induction arguments with
  | nil => simp [argumentLines]
  | cons a rest ih =>
    obtain ⟨ha, hrest⟩ := List.forall_mem_cons.mp h
    cases rest with
    | nil =>
      simp only [argumentLines, List.forall_mem_singleton, oneLine_append, ha]
      decide
    | cons a' rest =>
      rw [argumentLines_cons_cons]
      refine List.forall_mem_cons.mpr ⟨?_, ih hrest⟩
      simp only [oneLine_append, ha]
      decide

theorem FieldMember.oneLine_lines {f : FieldMember} (h : ∀ s ∈ f.texts, OneLine s) :
    ∀ l ∈ f.lines depth, OneLine l.text := by
  simp only [texts, List.forall_mem_append, List.forall_mem_cons] at h
  obtain ⟨⟨⟨hattributes, hmodifiers⟩, htype, hname, -⟩, hinitializer⟩ := h
  have hhead : OneLine f.head := by
    simp only [head, oneLine_append, oneLine_words hmodifiers, htype, hname]
    decide
  have hrender : OneLine (f.head ++ f.initializer.render ++ ";") := by
    simp only [oneLine_append, hhead, Expr.oneLine_render _ hinitializer]
    decide
  rw [lines]
  refine List.forall_mem_append.mpr ⟨oneLine_attributeLines hattributes, ?_⟩
  split
  next target arguments hcall =>
    rw [hcall] at hinitializer
    obtain ⟨htarget, harguments⟩ := List.forall_mem_append.mp hinitializer
    split
    · refine List.forall_mem_cons.mpr ⟨?_, ?_⟩
      · simp only [oneLine_append, hhead, Expr.oneLine_renderPrimary htarget]
        decide
      · exact oneLine_argumentLines (Expr.oneLine_renderArguments arguments harguments)
    · exact List.forall_mem_singleton.mpr hrender
  next => exact List.forall_mem_singleton.mpr hrender

theorem AccessorBody.oneLine_line {a : AccessorBody} {keyword : String}
    (h : ∀ s ∈ a.texts, OneLine s) (hkeyword : OneLine keyword) :
    OneLine (a.line depth keyword).text := by
  obtain ⟨hmodifiers, hbody⟩ := List.forall_mem_append.mp h
  have hhead : OneLine (if words a.modifiers = "" then "" else words a.modifiers ++ " ") := by
    split
    · decide
    · simp only [oneLine_append, oneLine_words hmodifiers]
      decide
  simp only [line, oneLine_append, hhead, hkeyword, Expr.oneLine_render _ hbody]
  decide

theorem PropertyMember.oneLine_lines {p : PropertyMember} (h : ∀ s ∈ p.texts, OneLine s) :
    ∀ l ∈ p.lines depth, OneLine l.text := by
  simp only [texts, List.forall_mem_append, List.forall_mem_cons] at h
  obtain ⟨⟨⟨⟨hattributes, hmodifiers⟩, htype, hname, -⟩, hgetter⟩, hsetter⟩ := h
  have hhead : OneLine (words p.modifiers ++ " " ++ p.type ++ " " ++ p.name) := by
    simp only [oneLine_append, oneLine_words hmodifiers, htype, hname]
    decide
  have hbraces : OneLine "\x7b" ∧ OneLine "\x7d" := by decide
  simp only [lines, List.forall_mem_append]
  refine ⟨⟨⟨⟨oneLine_attributeLines hattributes, ?_⟩, ?_⟩, ?_⟩, ?_⟩
  · exact List.forall_mem_cons.mpr ⟨hhead, List.forall_mem_singleton.mpr hbraces.1⟩
  · exact List.forall_mem_singleton.mpr (AccessorBody.oneLine_line hgetter (by decide))
  · cases hs : p.setter with
    | none => simp
    | some setter =>
      rw [hs] at hsetter
      have htexts : ∀ s ∈ setter.texts, OneLine s := by simpa using hsetter
      exact List.forall_mem_singleton.mpr (AccessorBody.oneLine_line htexts (by decide))
  · exact List.forall_mem_singleton.mpr hbraces.2

theorem MethodMember.oneLine_lines {m : MethodMember} (h : ∀ s ∈ m.texts, OneLine s) :
    ∀ l ∈ m.lines depth, OneLine l.text := by
  simp only [texts, List.forall_mem_append, List.forall_mem_cons] at h
  obtain ⟨⟨⟨⟨hattributes, hmodifiers⟩, htype, hname, -⟩, hparameters⟩, hbody⟩ := h
  have hparameter : ∀ s ∈ m.parameters.map (fun p => p.type ++ " " ++ p.name), OneLine s := by
    intro s hs
    obtain ⟨p, hp, rfl⟩ := List.mem_map.mp hs
    have htexts : OneLine p.type ∧ OneLine p.name := by
      simpa using fun s hs => hparameters s (List.mem_flatMap.mpr ⟨p, hp, hs⟩)
    simp only [oneLine_append, htexts]
    decide
  have hsignature : OneLine m.signature := by
    simp only [signature, oneLine_append, oneLine_words hmodifiers, htype, hname,
      oneLine_intercalate (by decide : OneLine ", ") hparameter]
    decide
  rw [lines]
  refine List.forall_mem_append.mpr ⟨oneLine_attributeLines hattributes, ?_⟩
  cases hb : m.body with
  | none =>
    simp only [List.forall_mem_singleton, oneLine_append, hsignature]
    decide
  | some body =>
    rw [hb] at hbody
    have htexts : ∀ s ∈ body.texts, OneLine s := by simpa using hbody
    simp only [List.forall_mem_singleton, oneLine_append, hsignature, body.oneLine_render htexts]
    decide

theorem Member.oneLine_lines {m : Member} (h : ∀ s ∈ m.texts, OneLine s) :
    ∀ l ∈ m.lines depth, OneLine l.text := by
  cases m with
  | field f => exact f.oneLine_lines h
  | property p => exact p.oneLine_lines h
  | method m => exact m.oneLine_lines h

end Lines

section Units

theorem oneLine_nest {headers : List String} {body : Nat → List Line}
    (hheaders : ∀ h ∈ headers, OneLine h) (hbody : ∀ depth, ∀ l ∈ body depth, OneLine l.text)
    (depth : Nat) : ∀ l ∈ nest headers depth body, OneLine l.text := by
  induction headers generalizing depth with
  | nil => exact hbody depth
  | cons header rest ih =>
    obtain ⟨hheader, hrest⟩ := List.forall_mem_cons.mp hheaders
    have hbraces : OneLine "\x7b" ∧ OneLine "\x7d" := by decide
    rw [nest, List.forall_mem_append, List.forall_mem_cons, List.forall_mem_cons]
    exact ⟨⟨hheader, hbraces.1, ih hrest _⟩, List.forall_mem_singleton.mpr hbraces.2⟩

theorem isInfix_nest (headers : List String) (depth : Nat) (body : Nat → List Line) :
    body (depth + headers.length) <:+: nest headers depth body := by
  induction headers generalizing depth with
  | nil => exact List.infix_rfl
  | cons header rest ih =>
    have hh := ih (depth + 1)
    rw [Nat.add_assoc depth 1, Nat.add_comm 1] at hh
    exact hh.trans ⟨[{ depth, text := header }, { depth, text := "\x7b" }],
      [{ depth, text := "\x7d" }], by simp [nest]⟩

theorem memberLines_singleton (m : Member) (depth : Nat) : memberLines [m] depth = m.lines depth := by
  simp [memberLines]

theorem memberLines_cons_cons (m m' : Member) (rest : List Member) (depth : Nat) :
    memberLines (m :: m' :: rest) depth =
      m.lines depth ++ blankLine :: memberLines (m' :: rest) depth := by
  simp [memberLines]

theorem oneLine_memberLines {members : List Member}
    (h : ∀ m ∈ members, ∀ s ∈ m.texts, OneLine s) (depth : Nat) :
    ∀ l ∈ memberLines members depth, OneLine l.text := by
  induction members with
  | nil => simp [memberLines]
  | cons m rest ih =>
    obtain ⟨hm, hrest⟩ := List.forall_mem_cons.mp h
    have hlines : ∀ l ∈ m.lines depth, OneLine l.text := Member.oneLine_lines hm
    cases rest with
    | nil => rwa [memberLines_singleton]
    | cons m' rest =>
      rw [memberLines_cons_cons, List.forall_mem_append, List.forall_mem_cons]
      exact ⟨hlines, by decide, ih hrest⟩

theorem Wrapper.oneLine_header {w : Wrapper} (h : ∀ s ∈ w.texts, OneLine s) : OneLine w.header := by
  simp only [texts, List.forall_mem_cons] at h
  obtain ⟨hkeyword, hname, hparameters⟩ := h
  simp only [header, oneLine_append, hkeyword, hname, oneLine_parameterList hparameters]
  decide

theorem SourceUnit.oneLine_lines {u : SourceUnit} (h : ∀ s ∈ u.texts, OneLine s) :
    ∀ l ∈ u.lines, OneLine l.text := by
  simp only [texts, List.forall_mem_append, List.forall_mem_flatMap] at h
  obtain ⟨⟨hnamespace, hwrappers⟩, hmembers⟩ := h
  have hheaders : ∀ header ∈ u.headers, OneLine header := by
    rw [headers, List.forall_mem_append, List.forall_mem_map]
    refine ⟨fun header hheader => ?_, fun w hw => Wrapper.oneLine_header (hwrappers w hw)⟩
    obtain ⟨name, hname, rfl⟩ := Option.map_eq_some_iff.mp (Option.mem_toList.mp hheader)
    simp only [oneLine_append, hnamespace name (Option.mem_toList.mpr hname)]
    decide
  have hbody := oneLine_nest hheaders (fun depth => oneLine_memberLines hmembers depth) 0
  rw [lines, List.forall_mem_append, List.forall_mem_append, List.forall_mem_cons]
  refine ⟨⟨⟨by decide, ?_⟩, ?_⟩, hbody⟩
  · split <;> decide
  · decide

end Units

/-- A text without those of its lines that are the given one, whatever their indentation. -/
def withoutLines (line text : String) : String :=
  String.ofList (['\n'].intercalate ((text.toList.splitOn '\n').filter fun cs =>
    cs.dropWhile (· = ' ') ≠ line.toList))

namespace Line

/-- What stands in the text for a line, up to its end. -/
def chars (l : Line) : List Char :=
  if l.text = "" then [] else List.replicate (l.depth * 4) ' ' ++ l.text.toList

/-- The line is the given one, whatever its indentation. -/
def isLine (line : String) (l : Line) : Bool := l.chars.dropWhile (· = ' ') = line.toList

theorem toList_render (l : Line) : l.render.toList = l.chars ++ ['\n'] := by
  have hblank : (String.join (List.replicate l.depth "    ")).toList =
      List.replicate (l.depth * 4) ' ' := by
    have hlevel : "    ".toList = List.replicate 4 ' ' := rfl
    rw [String.toList_join, List.flatMap_replicate, hlevel, List.flatten_replicate_replicate]
  rw [render, chars]
  split
  · rfl
  · rw [String.toList_append, String.toList_append, hblank]
    rfl

theorem newline_notMem_chars {l : Line} (h : OneLine l.text) : '\n' ∉ l.chars := by
  rw [chars]
  split
  · exact List.not_mem_nil
  · rw [List.mem_append, not_or]
    exact ⟨fun hn => absurd (List.eq_of_mem_replicate hn) (by decide), h⟩

/-- For a text that does not start with a blank, only the text itself counts. -/
theorem isLine_iff {l : Line} {line : String} (h : l.text.toList.head? ≠ some ' ') :
    l.isLine line ↔ l.text = line := by
  have htext : l.text.toList.dropWhile (· = ' ') = l.text.toList := by
    cases hl : l.text.toList with
    | nil => rfl
    | cons c cs =>
      have hc : c ≠ ' ' := by simpa [hl] using h
      exact List.dropWhile_cons_of_neg (by simpa using hc)
  have hchars : l.chars.dropWhile (· = ' ') = l.text.toList := by
    rw [chars]
    split
    next hempty => rw [hempty]; rfl
    next => rw [List.dropWhile_append_of_pos (by simp), htext]
  rw [isLine, hchars, decide_eq_true_iff, String.toList_inj]

end Line

section Text

variable {ls : List Line} {line : String}

/-- After the last line there is nothing more. -/
theorem toList_join_render (ls : List Line) :
    (String.join (ls.map (·.render))).toList = ['\n'].intercalate (ls.map (·.chars) ++ [[]]) := by
  rw [String.toList_join]
  induction ls with
  | nil => rfl
  | cons l rest ih =>
    rw [List.map_cons, List.flatMap_cons, ih, List.map_cons, List.cons_append,
      List.intercalate_cons_of_ne_nil (by simp), Line.toList_render]

theorem splitOn_join_render (h : ∀ l ∈ ls, OneLine l.text) :
    (String.join (ls.map (·.render))).toList.splitOn '\n' = ls.map (·.chars) ++ [[]] := by
  rw [toList_join_render]
  refine List.splitOn_intercalate '\n' ?_ (by simp)
  rw [List.forall_mem_append, List.forall_mem_map]
  exact ⟨fun l hl => Line.newline_notMem_chars (h l hl), by simp⟩

theorem withoutLines_join_render (hline : line ≠ "") (h : ∀ l ∈ ls, OneLine l.text) :
    withoutLines line (String.join (ls.map (·.render))) =
      String.join ((ls.filter fun l => !l.isLine line).map (·.render)) := by
  have hend : ([] : List Char) ≠ line.toList := fun he => hline (String.toList_eq_nil_iff.mp he.symm)
  rw [← String.toList_inj, toList_join_render, withoutLines, splitOn_join_render h,
    String.toList_ofList, List.filter_append, List.filter_map]
  congr 2
  · refine congrArg _ (List.filter_congr fun l _ => ?_)
    simp [Line.isLine]
  · simpa using hend

end Text

end Bindable
