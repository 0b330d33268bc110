import Bindable.Proofs.Source.UnitText

/-! A printer that writes line after line at its present depth. It is told what a unit consists of,
without any depth, and keeps count itself; a printer at depth zero cannot go further out. Whatever it
prints for a unit, it prints at depths that fit, and it ends where it started. -/

namespace Bindable

inductive PrinterStep where
  | line (text : String)
  | blank
  /-- A header, and a brace that opens a block. -/
  | enter (header : String)
  /-- A brace that closes the block. -/
  | leave
  /-- Lines of their own, one level further in. -/
  | arguments (texts : List String)

structure Printer where
  lines : List Line
  depth : Nat

namespace Printer

def start : Printer := { lines := [], depth := 0 }

def line (p : Printer) (text : String) : Printer :=
  { p with lines := p.lines ++ [{ depth := p.depth, text }] }

def blank (p : Printer) : Printer := { p with lines := p.lines ++ [blankLine] }

def indent (p : Printer) : Printer := { p with depth := p.depth + 1 }

def outdent? (p : Printer) : Option Printer :=
  match p.depth with
  | 0 => none
  | depth + 1 => some { p with depth }

def step (p : Printer) : PrinterStep → Option Printer
  | .line text => some (p.line text)
  | .blank => some p.blank
  | .enter header => some ((p.line header).line "\x7b").indent
  | .leave => p.outdent?.map (·.line "\x7d")
  | .arguments texts => (texts.foldl line p.indent).outdent?

def run (p : Printer) (steps : List PrinterStep) : Option Printer := steps.foldlM step p

theorem run_cons (p : Printer) (s : PrinterStep) (steps : List PrinterStep) :
    p.run (s :: steps) = (p.step s).bind (·.run steps) := List.foldlM_cons

theorem run_append (p : Printer) (steps steps' : List PrinterStep) :
    p.run (steps ++ steps') = (p.run steps).bind (·.run steps') := List.foldlM_append

theorem foldl_line (texts : List String) (p : Printer) :
    texts.foldl line p = { p with lines := p.lines ++ texts.map (Line.mk p.depth) } := by
  induction texts generalizing p with
  | nil => simp
  | cons text rest ih =>
    rw [List.foldl_cons, ih]
    simp [line]

theorem step_arguments (p : Printer) (texts : List String) :
    p.step (.arguments texts) =
      some { p with lines := p.lines ++ texts.map (Line.mk (p.depth + 1)) } := by
  rw [step, foldl_line]
  rfl

end Printer

/-- At any depth, the steps write these lines and leave the printer where it was. -/
def Prints (steps : List PrinterStep) (body : Nat → List Line) : Prop :=
  ∀ p : Printer, p.run steps = some { p with lines := p.lines ++ body p.depth }

section Blocks

variable {steps steps' : List PrinterStep} {body body' : Nat → List Line}

theorem prints_nil : Prints [] fun _ => [] := fun p => by simp [Printer.run]

theorem Prints.append (h : Prints steps body) (h' : Prints steps' body') :
    Prints (steps ++ steps') fun depth => body depth ++ body' depth := by
  intro p
  rw [Printer.run_append, h p, Option.bind_some, h', List.append_assoc]

theorem prints_line (text : String) : Prints [.line text] fun depth => [{ depth, text }] :=
  fun _ => rfl

theorem prints_blank : Prints [.blank] fun _ => [blankLine] := fun _ => rfl

theorem prints_lines (texts : List String) :
    Prints (texts.map .line) fun depth => texts.map (Line.mk depth) := by
  induction texts with
  | nil => exact prints_nil
  | cons text rest ih => exact (prints_line text).append ih

theorem prints_arguments (texts : List String) :
    Prints [.arguments texts] fun depth => texts.map (Line.mk (depth + 1)) := by
  intro p
  rw [Printer.run_cons, Printer.step_arguments]
  rfl

/-- The brace at the end takes back the level of the one at the start. -/
theorem Prints.block (h : Prints steps body) (header : String) :
    Prints (.enter header :: steps ++ [.leave]) fun depth =>
      { depth, text := header } :: { depth, text := "\x7b" } :: body (depth + 1) ++
        [{ depth, text := "\x7d" }] := by
  intro p
  have hopen : p.step (.enter header) = some
      { lines := p.lines ++
          [{ depth := p.depth, text := header }, { depth := p.depth, text := "\x7b" }]
        depth := p.depth + 1 } := by
    simp [Printer.step, Printer.line, Printer.indent]
  have hbody := h { lines := p.lines ++ [{ depth := p.depth, text := header },
    { depth := p.depth, text := "\x7b" }], depth := p.depth + 1 }
  rw [List.cons_append, Printer.run_cons, hopen, Option.bind_some, Printer.run_append, hbody,
    Option.bind_some]
  simp [Printer.run, Printer.step, Printer.outdent?, Printer.line]

theorem Prints.nest (h : Prints steps body) (headers : List String) :
    Prints (headers.map .enter ++ steps ++ headers.map fun _ => .leave) (nest headers · body) := by
  induction headers with
  | nil => simpa [Bindable.nest] using h
  | cons header rest ih =>
    -- the closing braces are all alike, so that the last of them may close the outermost block
    have hleave : (rest.map fun _ => PrinterStep.leave) ++ [.leave] =
        .leave :: rest.map fun _ => PrinterStep.leave := by
      rw [List.map_const', ← List.replicate_succ', List.replicate_succ]
    have hsteps : .enter header :: (rest.map .enter ++ steps ++ rest.map fun _ => .leave) ++ [.leave] =
        (header :: rest).map .enter ++ steps ++ (header :: rest).map fun _ => .leave := by
      simp only [List.map_cons, List.cons_append, List.append_assoc, hleave]
    rw [← hsteps]
    exact ih.block header

end Blocks

def attributeSteps (attributes : List String) : List PrinterStep :=
  attributes.map fun a => .line ("[" ++ a ++ "]")

def argumentTexts (arguments : List String) : List String :=
  (argumentLines 0 arguments).map (·.text)

theorem prints_attributeSteps (attributes : List String) :
    Prints (attributeSteps attributes) fun depth => attributeLines depth attributes := by
  have h := prints_lines (attributes.map fun a => "[" ++ a ++ "]")
  simpa [attributeSteps, attributeLines, Function.comp_def] using h

theorem argumentLines_eq (depth : Nat) (arguments : List String) :
    argumentLines depth arguments = (argumentTexts arguments).map (Line.mk depth) := by
  induction arguments with
  | nil => rfl
  | cons a rest ih =>
    cases rest with
    | nil => rfl
    | cons a' rest =>
      rw [argumentTexts, argumentLines_cons_cons, argumentLines_cons_cons, List.map_cons,
        List.map_cons, ih, argumentTexts]

namespace FieldMember

def steps (f : FieldMember) : List PrinterStep :=
  attributeSteps f.attributes ++
    match f.initializer with
    | .call target arguments =>
      if arguments.any fun a => a.1.isSome then
        [.line (f.head ++ target.renderPrimary ++ "("),
          .arguments (argumentTexts (Expr.renderArguments arguments))]
      else [.line (f.head ++ f.initializer.render ++ ";")]
    | e => [.line (f.head ++ e.render ++ ";")]

theorem prints_steps (f : FieldMember) : Prints f.steps (f.lines ·) := by
  refine (prints_attributeSteps f.attributes).append ?_
  cases hinitializer : f.initializer with
  | call target arguments =>
    by_cases hnamed : arguments.any fun a => a.1.isSome
    · simp only [hnamed, if_true, argumentLines_eq]
      exact (prints_line _).append (prints_arguments _)
    · simp only [hnamed]
      exact prints_line _
  | _ => exact prints_line _

end FieldMember

namespace PropertyMember

def head (p : PropertyMember) : String := words p.modifiers ++ " " ++ p.type ++ " " ++ p.name

def accessorTexts (p : PropertyMember) : List String :=
  (p.getter.line 0 "get").text :: (p.setter.map fun s => (s.line 0 "set").text).toList

def steps (p : PropertyMember) : List PrinterStep :=
  attributeSteps p.attributes ++ (.enter p.head :: p.accessorTexts.map .line ++ [.leave])

theorem prints_steps (p : PropertyMember) : Prints p.steps (p.lines ·) := by
  have h := (prints_attributeSteps p.attributes).append
    ((prints_lines p.accessorTexts).block p.head)
  have hlines : ∀ depth, p.lines depth = attributeLines depth p.attributes ++
      ({ depth, text := p.head } :: { depth, text := "\x7b" } ::
        p.accessorTexts.map (Line.mk (depth + 1)) ++ [{ depth, text := "\x7d" }]) := by
    intro depth
    cases hs : p.setter <;> simp [lines, accessorTexts, head, AccessorBody.line, hs]
  simpa only [steps, hlines] using h

end PropertyMember

namespace MethodMember

def steps (m : MethodMember) : List PrinterStep :=
  attributeSteps m.attributes ++
    match m.body with
    | some body => [.line (m.signature ++ " => " ++ body.render ++ ";")]
    | none => [.line (m.signature ++ ";")]

theorem prints_steps (m : MethodMember) : Prints m.steps (m.lines ·) := by
  refine (prints_attributeSteps m.attributes).append ?_
  cases m.body with
  | none => exact prints_line _
  | some body => exact prints_line _

end MethodMember

namespace Member

def steps : Member → List PrinterStep
  | field f => f.steps
  | property p => p.steps
  | method m => m.steps

theorem prints_steps (m : Member) : Prints m.steps (m.lines ·) := by
  cases m with
  | field f => exact f.prints_steps
  | property p => exact p.prints_steps
  | method m => exact m.prints_steps

end Member

def memberSteps (members : List Member) : List PrinterStep :=
  ((members.map (·.steps)).intersperse [.blank]).flatten

theorem memberSteps_singleton (m : Member) : memberSteps [m] = m.steps := by simp [memberSteps]

theorem memberSteps_cons_cons (m m' : Member) (rest : List Member) :
    memberSteps (m :: m' :: rest) = m.steps ++ ([.blank] ++ memberSteps (m' :: rest)) := by
  simp [memberSteps]

theorem prints_memberSteps (members : List Member) :
    Prints (memberSteps members) (memberLines members ·) := by
  induction members with
  | nil => exact prints_nil
  | cons m rest ih =>
    cases rest with
    | nil =>
      simp only [memberSteps_singleton, memberLines_singleton]
      exact m.prints_steps
    | cons m' rest =>
      simp only [memberSteps_cons_cons, memberLines_cons_cons]
      exact m.prints_steps.append (prints_blank.append ih)

namespace SourceUnit

def steps (u : SourceUnit) : List PrinterStep :=
  .line "// <auto-generated/>" ::
    (if u.nullableDirective then [.line "#nullable enable"] else []) ++ [.blank] ++
    (u.headers.map .enter ++ memberSteps u.members ++ u.headers.map fun _ => .leave)

/-- The printer never has to go out from depth zero, and it is at depth zero in the end. -/
theorem run_steps (u : SourceUnit) :
    Printer.start.run u.steps = some { lines := u.lines, depth := 0 } := by
  have hdirective : Prints (if u.nullableDirective then [.line "#nullable enable"] else [])
      fun depth => if u.nullableDirective then [{ depth, text := "#nullable enable" }] else [] := by
    split
    · exact prints_line _
    · exact prints_nil
  have hmembers := (prints_memberSteps u.members).nest u.headers
  have h := (((prints_line "// <auto-generated/>").append hdirective).append prints_blank).append
    hmembers
  exact h Printer.start

end SourceUnit

end Bindable
