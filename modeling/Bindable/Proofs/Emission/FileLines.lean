import Bindable.Proofs.Emission.LineStarts
import Bindable.Proofs.Source.LiteralText

/-! The lines of a file. Inside the blocks of the namespace and of the types stand the members of each
descriptor and nothing else, and each property is named once. -/

namespace Bindable

section Blocks

/-- Blocks opened one inside the other. -/
def openings (headers : List String) (depth : Nat) : List Line :=
  (headers.zipIdx depth).flatMap fun p =>
    [{ depth := p.2, text := p.1 }, { depth := p.2, text := "\x7b" }]

/-- The same number of blocks closed, the innermost first. -/
def closings (count depth : Nat) : List Line :=
  (List.range' depth count).reverse.map fun level => { depth := level, text := "\x7d" }

theorem nest_eq (headers : List String) (depth : Nat) (body : Nat → List Line) :
    nest headers depth body =
      openings headers depth ++ body (depth + headers.length) ++ closings headers.length depth := by
  induction headers generalizing depth with
  | nil => simp [nest, openings, closings]
  | cons header rest ih =>
    have hdepth : depth + 1 + rest.length = depth + (rest.length + 1) := by omega
    rw [nest, ih, hdepth]
    simp [openings, closings, List.range'_succ]

variable {α : Type} {x : α} {p : α → Bool}

theorem filter_flatten_intersperse (hx : p x = false) (ls : List (List α)) :
    ((ls.intersperse [x]).flatten).filter p = ls.flatMap (·.filter p) := by
  induction ls with
  | nil => rfl
  | cons l rest ih =>
    cases rest with
    | nil => simp
    | cons l' rest =>
      rw [List.intersperse_cons_cons, List.flatten_cons, List.flatten_cons, List.filter_append,
        List.filter_append, ih, List.filter_cons_of_neg (by simp [hx]), List.flatMap_cons]
      rfl

end Blocks

namespace Entry

/-- The heads of the blocks around the members, the outermost first. -/
def headers (e : Entry) : List String :=
  (e.type.namespace?.map ("namespace " ++ ·)).toList ++
    e.type.enclosing.map (fun t =>
      "partial " ++ t.kind.keyword ++ " " ++ t.name ++ parameterList t.typeParameters) ++
    ["partial " ++ e.type.kind.keyword ++ " " ++ e.type.name ++ parameterList e.type.typeParameters]

/-- A comment, the directive, and in their blocks the members of each descriptor. -/
def lines (o : Options) (e : Entry) : List Line :=
  { depth := 0, text := "// <auto-generated/>" } ::
    (if o.nullableDirective then [{ depth := 0, text := "#nullable enable" }] else []) ++
    [blankLine] ++
    openings e.headers 0 ++
    ((e.descriptors.map fun d => memberLines (d.members o) e.headers.length).intersperse
      [blankLine]).flatten ++
    closings e.headers.length 0

theorem headers_unit (o : Options) (e : Entry) : (e.unit o).headers = e.headers := by
  rw [SourceUnit.headers, unit, headers, List.map_append, List.map_map, List.append_assoc]
  rfl

end Entry

section Signs

variable {o : Options} {d : Descriptor} {e : Entry} {depth : Nat}

theorem blankLine_isSign : blankLine.isSign = false := by decide

theorem Descriptor.isSign_of_mem_signs {l : Line} (h : l ∈ d.signs depth) : l.isSign :=
  Line.isSign_iff.mpr (d.opensWith_signs depth l h)

theorem filter_isSign_eq_nil {ls : List Line} (h : ∀ l ∈ ls, OpensWith plainStarts l.text) :
    ls.filter (·.isSign) = [] :=
  List.filter_eq_nil_iff.mpr fun l hl => by simp [Line.isSign_eq_false (h l hl)]

theorem Member.filter_isSign_lines (m : Member) (depth : Nat) :
    (m.lines depth).filter (·.isSign) = (m.bare.lines depth).filter (·.isSign) := by
  have hbracket : ∀ l ∈ attributeLines depth m.attributes, ¬ l.isSign := by
    intro l hl
    obtain ⟨a, -, rfl⟩ := List.mem_map.mp hl
    simp [Line.isSign, signStarts]
  rw [m.lines_eq, List.filter_append, List.filter_eq_nil_iff.mpr hbracket, List.nil_append]

theorem filter_isSign_memberLines (members : List Member) (depth : Nat) :
    (memberLines members depth).filter (·.isSign) =
      members.flatMap fun m => (m.bare.lines depth).filter (·.isSign) := by
  rw [memberLines, filter_flatten_intersperse blankLine_isSign, List.flatMap_map]
  exact List.flatMap_congr fun m _ => m.filter_isSign_lines depth

/-- Among the lines of its members a descriptor has its two signs, and no other ones. -/
theorem Descriptor.filter_isSign_members (o : Options) (d : Descriptor) (depth : Nat) :
    (memberLines (d.members o) depth).filter (·.isSign) = d.signs (depth + 1) := by
  obtain ⟨f, others, hmembers, hcall, hwords, hothers⟩ := d.exists_members_eq o
  obtain ⟨name, type, declaring, rest, hlines, hsigns, hplain⟩ := d.exists_createLines_eq (depth + 1)
  obtain ⟨text, hfield⟩ := f.exists_lines_eq depth
  obtain ⟨htype, hrest⟩ := List.forall_mem_cons.mp hplain
  have hsign : ∀ l ∈ [name, declaring], l.isSign := fun l hl => isSign_of_mem_signs (hsigns ▸ hl)
  simp only [List.forall_mem_cons] at hsign
  have hnone : others.flatMap (fun m => (m.bare.lines depth).filter (·.isSign)) = [] :=
    List.flatMap_eq_nil_iff.mpr fun m hm => filter_isSign_eq_nil (hothers m hm depth)
  have hhead : Line.isSign { depth, text := f.head ++ text } = false :=
    Line.isSign_eq_false (FieldMember.opensWith_head hwords text)
  rw [filter_isSign_memberLines, hmembers, List.flatMap_cons, hnone, List.append_nil, hfield,
    callLines_eq hcall, hlines, ← hsigns]
  simp [hhead, hsign, Line.isSign_eq_false htype, filter_isSign_eq_nil hrest]

theorem opensWith_openings {headers : List String}
    (h : ∀ header ∈ headers, OpensWith plainStarts header) (depth : Nat) :
    ∀ l ∈ openings headers depth, OpensWith plainStarts l.text := by
  have hbrace : OpensWith plainStarts "\x7b" := opensWith_of_mem (by decide)
  rw [openings, List.forall_mem_flatMap]
  rintro ⟨header, level⟩ hp
  have hheader := h header (List.fst_mem_of_mem_zipIdx hp)
  exact List.forall_mem_cons.mpr ⟨hheader, List.forall_mem_singleton.mpr hbrace⟩

theorem opensWith_closings (count depth : Nat) :
    ∀ l ∈ closings count depth, OpensWith plainStarts l.text := by
  have hbrace : OpensWith plainStarts "\x7d" := opensWith_of_mem (by decide)
  rw [closings, List.forall_mem_map]
  exact fun _ _ => hbrace

/-- The signs of a file are those of its descriptors. -/
theorem Entry.filter_isSign_lines (o : Options) (e : Entry) :
    (e.lines o).filter (·.isSign) = e.descriptors.flatMap (·.signs (e.headers.length + 1)) := by
  have hpreamble := filter_isSign_eq_nil (e.unit o).opensWith_preamble
  have hopen := filter_isSign_eq_nil
    (opensWith_openings (e.headers_unit o ▸ (e.unit o).opensWith_headers) 0)
  have hclose := filter_isSign_eq_nil (opensWith_closings e.headers.length 0)
  have hblank : [blankLine].filter (·.isSign) = [] := rfl
  have hunit : (e.unit o).nullableDirective = o.nullableDirective := rfl
  rw [hunit] at hpreamble
  rw [lines, List.filter_append, List.filter_append, List.filter_append, List.filter_append, hopen,
    hclose, hblank, hpreamble, filter_flatten_intersperse blankLine_isSign, List.flatMap_map]
  simp only [Descriptor.filter_isSign_members, List.nil_append, List.append_nil]

end Signs

section Shown

variable {o : Options} {d d' : Descriptor} {e : Entry} {ds : List Descriptor} {depth : Nat}

namespace Descriptor

end Descriptor

end Shown

end Bindable
