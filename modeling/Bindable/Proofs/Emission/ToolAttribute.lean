import Bindable.Proofs.Emission.ToolLine
import Bindable.Proofs.Source.LiteralGrammar

/-! The attribute that names the tool. The name and the version stand in it as they are given,
between quotes, so that it names them only if nothing in them would have to be escaped. -/

namespace Bindable

/-- One line that is an attribute with two string literals, for the name and for the version. -/
structure IsToolAttribute (name version line : String) : Prop where
  single : line.toList.any isLineEnd = false
  literals : ∃ a b, line = "[global::System.CodeDom.Compiler.GeneratedCode(" ++ (a ++ ", " ++ b) ++ ")]" ∧
    IsStringLiteral a name ∧ IsStringLiteral b version

def NeedsNoEscape (s : String) : Prop := ∀ c ∈ s.toList, IsPlain c

def betweenQuotes (s : String) : String := "\"" ++ s ++ "\""

section Literals

variable {name version : String}

theorem isStringLiteral_betweenQuotes (h : NeedsNoEscape name) :
    IsStringLiteral (betweenQuotes name) name :=
  ⟨name.toList, by simp [betweenQuotes], literalElements_of_isPlain h⟩

theorem any_isLineEnd_of_needsNoEscape (h : NeedsNoEscape name) :
    name.toList.any isLineEnd = false := by
  rw [List.any_eq_false]
  intro c hc
  rw [(h c hc).2.2]
  exact Bool.false_ne_true

/-- Neither text has an escape: the literal with one would be longer than its value, and the other
literal, which takes up the rest, shorter. -/
theorem needsNoEscape_of_literals {a b : String} (ha : IsStringLiteral a name)
    (hb : IsStringLiteral b version)
    (h : betweenQuotes name ++ ", " ++ betweenQuotes version = a ++ ", " ++ b) :
    NeedsNoEscape name ∧ NeedsNoEscape version := by
  obtain ⟨body, hbody, helements⟩ := ha
  obtain ⟨body', hbody', helements'⟩ := hb
  have hquote : "\"".toList = ['"'] := rfl
  have hlists := congrArg (fun s : String => (s.toList.flatMap utf16).length) h
  have hlengths : (stringUnits name).length + (stringUnits version).length =
      (body.flatMap utf16).length + (body'.flatMap utf16).length := by
    simp only [betweenQuotes, String.toList_append, hquote, hbody, hbody', List.flatMap_append,
      List.flatMap_cons, List.flatMap_nil, List.length_append, List.length_nil] at hlists
    rw [stringUnits, stringUnits]
    omega
  rcases helements.plain_or_shorter with ⟨hplain, heq⟩ | hshorter <;>
    rcases helements'.plain_or_shorter with ⟨hplain', heq'⟩ | hshorter'
  · rw [← flatMap_utf16_injective heq] at hplain
    rw [← flatMap_utf16_injective heq'] at hplain'
    exact ⟨hplain, hplain'⟩
  · rw [heq] at hlengths
    omega
  · rw [heq'] at hlengths
    omega
  · omega

end Literals

namespace Options

theorem toolLine_eq (o : Options) : o.toolLine =
    "[global::System.CodeDom.Compiler.GeneratedCode(" ++
      (betweenQuotes o.toolName ++ ", " ++ betweenQuotes o.toolVersion) ++ ")]" := by
  have hstart : "[" ++ Framework.generatedCode ++ "(\"" =
      "[global::System.CodeDom.Compiler.GeneratedCode(" ++ "\"" := by
    decide +kernel
  have hmiddle : "\", \"" = "\"" ++ ", " ++ "\"" := rfl
  have hend : "\")" ++ "]" = "\"" ++ ")]" := rfl
  rw [toolLine, betweenQuotes, betweenQuotes, hmiddle]
  simp only [← String.append_assoc]
  rw [hstart]
  simp only [String.append_assoc]
  rw [hend]

/-- The attribute line stands alone before exactly the fields, properties and accessors, and it
names the tool and its version if and only if neither has a quote, a backslash or a line end. -/
theorem toolLine_isToolAttribute_iff (o : Options) :
    (∀ (d : Descriptor), ∀ m ∈ d.members o, ∀ depth,
      m.lines depth =
        (if o.generatedCodeAttribute ∧ m.stub? = none then [{ depth, text := o.toolLine }] else []) ++
          m.bare.lines depth) ∧
    (IsToolAttribute o.toolName o.toolVersion o.toolLine ↔
      NeedsNoEscape o.toolName ∧ NeedsNoEscape o.toolVersion) := by
  refine ⟨fun d m hm depth => Descriptor.lines_of_mem hm depth, fun h => ?_, fun h => ?_⟩
  · obtain ⟨-, a, b, hline, ha, hb⟩ := h
    rw [toolLine_eq, String.append_left_inj, String.append_right_inj] at hline
    exact needsNoEscape_of_literals ha hb hline
  constructor
  case single =>
    simp only [toolLine_eq, betweenQuotes, String.toList_append, List.any_append,
      any_isLineEnd_of_needsNoEscape h.1, any_isLineEnd_of_needsNoEscape h.2]
    decide +kernel
  case literals =>
    exact ⟨_, _, toolLine_eq o, isStringLiteral_betweenQuotes h.1,
      isStringLiteral_betweenQuotes h.2⟩

/-- Quotes in the name of a tool close its literal. -/
theorem toolLine_isToolAttribute_iff_quoted :
    let o : Options := { toolName := "my \"tool\"", toolVersion := "1.0" }
    let d : Descriptor :=
      { name := "Text", propertyType := .ofPrimitive .string, declaringType := default }
    o.toolLine = "[global::System.CodeDom.Compiler.GeneratedCode(\"my \"tool\"\", \"1.0\")]" ∧
    ¬ IsToolAttribute o.toolName o.toolVersion o.toolLine ∧
    ∃ m ∈ d.members o, m.lines 2 = { depth := 2, text := o.toolLine } :: m.bare.lines 2 := by
  intro o d
  obtain ⟨hlines, hattribute⟩ := toolLine_isToolAttribute_iff o
  refine ⟨by decide +kernel, fun h => ?_, ?_⟩
  · have hquote : '"' ∈ o.toolName.toList := by decide
    exact ((hattribute.mp h).1 _ hquote).1 rfl
  · have hm : d.instanceAccessor o ∈ d.members o := by
      rw [Descriptor.members, Descriptor.accessors]
      exact List.mem_append_left _ (List.mem_append_right _ (List.mem_singleton_self _))
    exact ⟨_, hm, hlines d _ hm 2⟩

end Options

end Bindable
