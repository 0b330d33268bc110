import Bindable.Proofs.Emission.FileLines

/-! Units with and without the attribute that names the tool. No other line starts with a bracket,
so that deleting the attribute's lines leaves the unit that is generated without it. -/

namespace Bindable

/-- The text starts with something other than a blank or the bracket of an attribute. -/
def opensCode (s : String) : Bool := s.toList.head?.any fun c => c ≠ ' ' && c ≠ '['

def Line.IsCode (l : Line) : Prop := l.text = "" ∨ opensCode l.text

section Openings

variable {s t : String} {l : Line}

/-- Neither a blank nor a bracket starts a generated line of another kind. -/
theorem opensCode_of_opensWith (h : OpensWith (signStarts ++ plainStarts) s) : opensCode s := by
  have hstarts : ∀ w ∈ signStarts ++ plainStarts, opensCode w := by decide
  obtain ⟨w, hw, hs⟩ := h
  have hcode := hstarts w hw
  obtain ⟨rest, hrest⟩ := hs
  rw [opensCode] at hcode ⊢
  cases hc : w.toList with
  | nil => simp [hc] at hcode
  | cons c cs => simpa [← hrest, hc] using hcode

theorem isCode_of_opensWith (h : OpensWith plainStarts l.text) : l.IsCode :=
  .inr (opensCode_of_opensWith (h.mono (List.subset_append_right _ _)))

theorem head?_toolLine (o : Options) : o.toolLine.toList.head? = some '[' := by
  have hopen : "[".toList = ['['] := rfl
  rw [Options.toolLine, String.append_assoc, String.toList_append, hopen, List.singleton_append,
    List.head?_cons]

theorem Line.isLine_toolLine (o : Options) (depth : Nat) :
    Line.isLine o.toolLine { depth, text := o.toolLine } := by
  generalize hline : o.toolLine = line
  have hhead : line.toList.head? ≠ some ' ' := by
    rw [← hline, head?_toolLine]
    decide
  exact (isLine_iff (l := { depth, text := line }) hhead).mpr rfl

theorem Line.IsCode.isLine_eq_false (h : l.IsCode) (o : Options) : l.isLine o.toolLine = false := by
  have hheads : l.text.toList.head? ≠ some ' ' ∧ l.text.toList.head? ≠ some '[' := by
    rcases h with hempty | hopen
    · simp [hempty]
    · rw [opensCode] at hopen
      cases hc : l.text.toList.head? <;> simp_all
  rw [← Bool.not_eq_true, Line.isLine_iff hheads.1]
  intro htext
  rw [htext, head?_toolLine] at hheads
  exact hheads.2 rfl

end Openings

namespace Options

/-- The options with the attribute switched on or off. -/
def withAttribute (o : Options) (on : Bool) : Options := { o with generatedCodeAttribute := on }

end Options

section Units

variable {o : Options} {e : Entry} {keep : Line → Bool}

theorem Descriptor.members_withAttribute_false (o : Options) (d : Descriptor) :
    d.members (o.withAttribute false) = (d.members (o.withAttribute true)).map (·.bare) := by
  have hfields : d.keyFields (o.withAttribute false) =
      (d.keyFields (o.withAttribute true)).map (·.bare) := by
    rw [keyFields, keyFields]
    cases d.shape <;> rfl
  have haccessors : d.accessors (o.withAttribute false) =
      (d.accessors (o.withAttribute true)).map (·.bare) := by
    rw [accessors, accessors]
    cases d.site <;> cases d.host <;> rfl
  have hstubs : d.stubs.map (·.bare) = d.stubs := by
    rw [stubs]
    cases d.hasValidate <;> cases d.hasCoerce <;> cases d.emitsFactory <;> rfl
  rw [members, members, List.map_append, List.map_append, hfields, haccessors, hstubs]

/-- Of the lines of a member only those of its attributes are deleted. -/
theorem Descriptor.filter_lines {d : Descriptor} {m : Member} (hm : m ∈ d.members o) (depth : Nat) :
    (m.lines depth).filter (fun l => !l.isLine o.toolLine) = m.bare.lines depth := by
  have hattribute : (if o.generatedCodeAttribute ∧ m.stub? = none then
      [({ depth, text := o.toolLine } : Line)] else []).filter
        (fun l => !l.isLine o.toolLine) = [] := by
    split
    · simp [Line.isLine_toolLine]
    · rfl
  have hbare : (m.bare.lines depth).filter (fun l => !l.isLine o.toolLine) = m.bare.lines depth := by
    refine List.filter_eq_self.mpr fun l hl => ?_
    have hcode : l.IsCode := .inr (opensCode_of_opensWith (opensWith_lines_of_mem hm l hl))
    rw [hcode.isLine_eq_false o, Bool.not_false]
  rw [lines_of_mem hm, List.filter_append, hattribute, hbare, List.nil_append]

theorem filter_memberLines {members : List Member} {depth : Nat} (hblank : keep blankLine)
    (h : ∀ m ∈ members, (m.lines depth).filter keep = m.bare.lines depth) :
    (memberLines members depth).filter keep = memberLines (members.map (·.bare)) depth := by
  induction members with
  | nil => rfl
  | cons m rest ih =>
    obtain ⟨hm, hrest⟩ := List.forall_mem_cons.mp h
    cases rest with
    | nil => rw [memberLines_singleton, hm, List.map_singleton, memberLines_singleton]
    | cons m' rest =>
      rw [memberLines_cons_cons, List.filter_append, hm, List.filter_cons_of_pos hblank, ih hrest]
      simp only [List.map_cons, memberLines_cons_cons]

namespace Entry

theorem members_withAttribute_false (o : Options) (e : Entry) :
    (e.unit (o.withAttribute false)).members =
      (e.unit (o.withAttribute true)).members.map (·.bare) := by
  show e.descriptors.flatMap _ = (e.descriptors.flatMap _).map _
  simp only [List.map_flatMap, Descriptor.members_withAttribute_false]

/-- Of the lines of a unit only those of the attribute are deleted. -/
theorem filter_lines (o : Options) (e : Entry) :
    (e.unit (o.withAttribute true)).lines.filter (fun l => !l.isLine o.toolLine) =
      (e.unit (o.withAttribute false)).lines := by
  have hkept : ∀ {ls : List Line}, (∀ l ∈ ls, OpensWith plainStarts l.text) →
      ls.filter (fun l => !l.isLine o.toolLine) = ls := by
    intro ls h
    refine List.filter_eq_self.mpr fun l hl => ?_
    rw [(isCode_of_opensWith (h l hl)).isLine_eq_false, Bool.not_false]
  have hblank : (!blankLine.isLine o.toolLine) = true := by
    rw [Line.IsCode.isLine_eq_false (.inl rfl), Bool.not_false]
  have hgap : [blankLine].filter (fun l => !l.isLine o.toolLine) = [blankLine] :=
    List.filter_eq_self.mpr (List.forall_mem_singleton.mpr hblank)
  have hmembers : ∀ depth,
      (memberLines (e.unit (o.withAttribute true)).members depth).filter
        (fun l => !l.isLine o.toolLine) =
      memberLines (e.unit (o.withAttribute false)).members depth := by
    intro depth
    rw [members_withAttribute_false]
    refine filter_memberLines hblank fun m hm => ?_
    obtain ⟨d, -, hm⟩ := List.mem_flatMap.mp hm
    exact Descriptor.filter_lines hm depth
  have hpreamble := hkept (e.unit (o.withAttribute true)).opensWith_preamble
  have hopen := hkept (opensWith_openings (e.unit (o.withAttribute true)).opensWith_headers 0)
  have hclose := hkept (opensWith_closings (e.unit (o.withAttribute true)).headers.length 0)
  rw [SourceUnit.lines, SourceUnit.lines, nest_eq, nest_eq, List.filter_append, List.filter_append,
    List.filter_append, List.filter_append, hpreamble, hgap, hopen, hmembers, hclose]
  rfl

theorem withoutLines_render (h : ∀ s ∈ (e.unit (o.withAttribute true)).texts, OneLine s) :
    withoutLines o.toolLine (e.unit (o.withAttribute true)).render =
      (e.unit (o.withAttribute false)).render := by
  have hline : o.toolLine ≠ "" := by
    intro hempty
    have hhead := head?_toolLine o
    rw [hempty] at hhead
    contradiction
  rw [SourceUnit.render, SourceUnit.render,
    withoutLines_join_render hline (SourceUnit.oneLine_lines h), filter_lines]

end Entry

end Units

end Bindable
