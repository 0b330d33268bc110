import Bindable.Proofs.Source.StepTexts
import Mathlib.Combinatorics.Enumerative.DyckWord

/-! The braces that stand alone on their lines, and the levels they open and close. Whatever the
printer is told, as long as no other line is a lone brace and no block is left that was not entered,
each line is indented by the blocks around it. -/

namespace Bindable

open DyckStep

/-- A lone brace, whatever its indentation. -/
def brace? (line : List Char) : Option DyckStep :=
  match line.dropWhile (· = ' ') with
  | ['\x7b'] => some U
  | ['\x7d'] => some D
  | _ => none

def braces (lines : List (List Char)) : List DyckStep := lines.filterMap brace?

/-- How many blocks are around a line that comes after these. A brace does not count for the line it
stands on, be it the one that opens a block or the one that closes it. -/
def openAround (before : List (List Char)) (line : List Char) : Int :=
  (braces before).count U - (braces (before ++ [line])).count D

/-- What is printed on a line, before it is indented. -/
structure Row where
  text : String
  /-- The row is one of the arguments of a call that takes several lines. -/
  isArgument : Bool

def Row.atLevel (r : Row) (level : Nat) : Line :=
  { depth := if r.isArgument then level + 1 else level, text := r.text }

def PrinterStep.rows : PrinterStep → List Row
  | line text => [⟨text, false⟩]
  | blank => [⟨"", false⟩]
  | enter header => [⟨header, false⟩, ⟨"\x7b", false⟩]
  | leave => [⟨"\x7d", false⟩]
  | arguments texts => texts.map (⟨·, true⟩)

/-- The rows are printed one a line, each at the level of the blocks around it. -/
structure Indented (rows : List Row) (lines : List (List Char)) : Prop where
  length_eq : rows.length = lines.length
  line_eq : ∀ i line, lines[i]? = some line →
    ∃ (r : Row) (level : Nat), rows[i]? = some r ∧ level = openAround (lines.take i) line ∧
      line = (r.atLevel level).chars

/-- How far a printer has come: no block was left before it was entered, and those that are open
make up the depth. -/
structure Layout (rows : List Row) (lines : List (List Char)) (depth : Nat) : Prop where
  indented : Indented rows lines
  closed_le : ∀ i, ((braces lines).take i).count D ≤ ((braces lines).take i).count U
  depth_eq : (braces lines).count D + depth = (braces lines).count U

section Lines

variable {rows : List Row} {lines : List (List Char)} {depth : Nat} {r : Row}

theorem brace?_chars (l : Line) : brace? l.chars = brace? l.text.toList := by
  rw [Line.chars]
  split
  next hempty => rw [hempty]; rfl
  next => rw [brace?, brace?, List.dropWhile_append_of_pos (by simp)]

theorem braces_append_singleton (lines : List (List Char)) (line : List Char) :
    braces (lines ++ [line]) = braces lines ++ (brace? line).toList := by
  rw [braces, List.filterMap_append]
  cases h : brace? line <;> simp [braces, h]

theorem Indented.append_singleton {line : List Char} {level : Nat} (h : Indented rows lines)
    (hlevel : level = openAround lines line) (hline : line = (r.atLevel level).chars) :
    Indented (rows ++ [r]) (lines ++ [line]) := by
  refine ⟨by simp [h.length_eq], fun i l hl => ?_⟩
  rcases Nat.lt_or_ge i lines.length with hi | hi
  · have hi' : i < rows.length := h.length_eq ▸ hi
    rw [List.getElem?_append_left hi] at hl
    rw [List.getElem?_append_left hi', List.take_append_of_le_length hi.le]
    exact h.line_eq i l hl
  · have hlast : i = lines.length := by
      have hlt := (List.getElem?_eq_some_iff.mp hl).1
      rw [List.length_append, List.length_singleton] at hlt
      omega
    subst hlast
    have he : line = l := by simpa using hl
    subst he
    refine ⟨r, level, by simp [← h.length_eq], ?_, hline⟩
    rwa [List.take_left]

theorem count_take_append_singleton {l : List DyckStep} {s : DyckStep}
    (h : ∀ i, (l.take i).count D ≤ (l.take i).count U)
    (hall : (l ++ [s]).count D ≤ (l ++ [s]).count U) (i : Nat) :
    ((l ++ [s]).take i).count D ≤ ((l ++ [s]).take i).count U := by
  rcases Nat.lt_or_ge l.length i with hi | hi
  · have hlength : (l ++ [s]).length ≤ i := by
      rw [List.length_append, List.length_singleton]
      omega
    rwa [List.take_of_length_le hlength]
  · rw [List.take_append_of_le_length hi]
    exact h i

namespace Layout

theorem nil : Layout [] [] 0 where
  indented := ⟨rfl, by simp⟩
  closed_le := by simp [braces]
  depth_eq := rfl

/-- One more row keeps the layout if its level is that of the blocks around it and the new depth
accounts for its brace. -/
theorem append_row {level depth' : Nat} {bs : List DyckStep} (h : Layout rows lines depth)
    (hbs : braces lines ++ (brace? r.text.toList).toList = bs)
    (hlevel : level + bs.count D = (braces lines).count U) (hdepth : bs.count D + depth' = bs.count U) :
    Layout (rows ++ [r]) (lines ++ [(r.atLevel level).chars]) depth' := by
  have hbraces : braces (lines ++ [(r.atLevel level).chars]) = bs := by
    have hbrace : brace? (r.atLevel level).chars = brace? r.text.toList := brace?_chars _
    rw [braces_append_singleton, hbrace, hbs]
  have hopen : level = openAround lines (r.atLevel level).chars := by
    rw [openAround, hbraces]
    omega
  refine ⟨h.indented.append_singleton hopen rfl, ?_, by rwa [hbraces]⟩
  rw [hbraces, ← hbs]
  -- the new depth is no less than zero, so that the new prefix has no brace too many
  cases hbrace : brace? r.text.toList with
  | none => simpa using h.closed_le
  | some s =>
    rw [hbrace, Option.toList_some] at hbs
    exact count_take_append_singleton h.closed_le (by rw [hbs]; omega)

/-- A row that is no brace leaves the blocks as they are. -/
theorem append_plain (h : Layout rows lines depth) (hrow : brace? r.text.toList = none) :
    Layout (rows ++ [r]) (lines ++ [(r.atLevel depth).chars]) depth := by
  have hdepth := h.depth_eq
  have hbs : braces lines ++ (brace? r.text.toList).toList = braces lines := by simp [hrow]
  exact h.append_row hbs (by omega) hdepth

theorem append_opening (h : Layout rows lines depth) :
    Layout (rows ++ [⟨"\x7b", false⟩]) (lines ++ [(Line.mk depth "\x7b").chars]) (depth + 1) := by
  have hdepth := h.depth_eq
  have hcounts : (braces lines ++ [U]).count D = (braces lines).count D ∧
      (braces lines ++ [U]).count U = (braces lines).count U + 1 := by simp
  have hbs : braces lines ++ (brace? "\x7b".toList).toList = braces lines ++ [U] := rfl
  exact h.append_row hbs (by omega) (by omega)

theorem append_closing (h : Layout rows lines (depth + 1)) :
    Layout (rows ++ [⟨"\x7d", false⟩]) (lines ++ [(Line.mk depth "\x7d").chars]) depth := by
  have hdepth := h.depth_eq
  have hcounts : (braces lines ++ [D]).count D = (braces lines).count D + 1 ∧
      (braces lines ++ [D]).count U = (braces lines).count U := by simp
  have hbs : braces lines ++ (brace? "\x7d".toList).toList = braces lines ++ [D] := rfl
  exact h.append_row hbs (by omega) (by omega)

theorem append_arguments (h : Layout rows lines depth) {texts : List String}
    (htexts : ∀ t ∈ texts, brace? t.toList = none) :
    Layout (rows ++ texts.map (⟨·, true⟩))
      (lines ++ texts.map fun t => (Line.mk (depth + 1) t).chars) depth := by
  induction texts generalizing rows lines with
  | nil => simpa using h
  | cons t rest ih =>
    obtain ⟨ht, hrest⟩ := List.forall_mem_cons.mp htexts
    have hh := ih (h.append_plain (r := ⟨t, true⟩) ht) hrest
    simpa [Row.atLevel] using hh

end Layout

end Lines

namespace Printer

/-- The printer has written these rows. -/
def Wrote (p : Printer) (rows : List Row) : Prop := Layout rows (p.lines.map (·.chars)) p.depth

variable {p q : Printer} {rows : List Row}

theorem Wrote.line {text : String} (h : p.Wrote rows) (htext : brace? text.toList = none) :
    (p.line text).Wrote (rows ++ [⟨text, false⟩]) := by
  have hh := Layout.append_plain (r := ⟨text, false⟩) h htext
  simpa [Wrote, Printer.line, Row.atLevel] using hh

/-- What one step writes is laid out, whatever was written before. -/
theorem Wrote.step {s : PrinterStep} (h : p.Wrote rows) (hs : ∀ t ∈ s.texts, brace? t.toList = none)
    (hstep : p.step s = some q) : q.Wrote (rows ++ s.rows) := by
  cases s with
  | line text =>
    obtain rfl : p.line text = q := Option.some.inj hstep
    exact h.line (hs text (List.mem_singleton_self text))
  | blank =>
    obtain rfl : p.blank = q := Option.some.inj hstep
    have hh := Layout.append_plain (r := ⟨"", false⟩) h rfl
    simpa [Wrote, Printer.blank, PrinterStep.rows, blankLine, Row.atLevel, Line.chars] using hh
  | enter header =>
    obtain rfl : ((p.line header).line "\x7b").indent = q := Option.some.inj hstep
    have hheader := h.line (hs header (List.mem_singleton_self header))
    have hh := hheader.append_opening
    simpa [Wrote, Printer.line, Printer.indent, PrinterStep.rows] using hh
  | leave =>
    -- at depth zero the step fails
    obtain ⟨lines, _ | depth⟩ := p
    · exact absurd hstep (by simp [Printer.step, Printer.outdent?])
    · obtain rfl : Printer.line ⟨lines, depth⟩ "\x7d" = q := Option.some.inj hstep
      have hh := h.append_closing
      simpa [Wrote, Printer.line, PrinterStep.rows] using hh
  | arguments texts =>
    rw [step_arguments] at hstep
    obtain rfl := Option.some.inj hstep
    have htexts : ∀ t ∈ texts, brace? t.toList = none := hs
    have hh := Layout.append_arguments h htexts
    simpa [Wrote, PrinterStep.rows, Function.comp_def] using hh

theorem Wrote.run {steps : List PrinterStep} (h : p.Wrote rows)
    (hsteps : ∀ s ∈ steps, ∀ t ∈ s.texts, brace? t.toList = none) (hrun : p.run steps = some q) :
    q.Wrote (rows ++ steps.flatMap (·.rows)) := by
  induction steps generalizing p rows with
  | nil =>
    obtain rfl : p = q := Option.some.inj hrun
    simpa using h
  | cons s rest ih =>
    obtain ⟨hs, hrest⟩ := List.forall_mem_cons.mp hsteps
    rw [run_cons, Option.bind_eq_some_iff] at hrun
    obtain ⟨p', hstep, hrun⟩ := hrun
    rw [List.flatMap_cons, ← List.append_assoc]
    exact ih (h.step hs hstep) hrest hrun

theorem wrote_start : start.Wrote [] := Layout.nil

end Printer

end Bindable
