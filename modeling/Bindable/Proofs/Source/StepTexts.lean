import Bindable.Proofs.Source.Printer

/-! The texts that the printer is given. What holds of the comment, the directive and the headers of a
unit and of all that its members print holds of every text that is printed for the unit. -/

namespace Bindable

/-- The texts that are given to the printer. -/
def PrinterStep.texts : PrinterStep → List String
  | line text | enter text => [text]
  | blank | leave => []
  | arguments texts => texts

def EachText (p : String → Prop) (steps : List PrinterStep) : Prop := ∀ s ∈ steps, ∀ t ∈ s.texts, p t

section Steps

variable {p : String → Prop} {steps steps' : List PrinterStep} {text : String}

theorem eachText_nil : EachText p [] := List.forall_mem_nil _

theorem eachText_append :
    EachText p (steps ++ steps') ↔ EachText p steps ∧ EachText p steps' := List.forall_mem_append

theorem eachText_line : EachText p [.line text] ↔ p text := by simp [EachText, PrinterStep.texts]

theorem eachText_blank : EachText p [.blank] := by simp [EachText, PrinterStep.texts]

theorem eachText_lines {texts : List String} :
    EachText p (texts.map .line) ↔ ∀ t ∈ texts, p t := by
  simp [EachText, PrinterStep.texts]

theorem eachText_block {header : String} :
    EachText p (.enter header :: steps ++ [.leave]) ↔ p header ∧ EachText p steps := by
  simp [EachText, PrinterStep.texts, or_imp, forall_and]

theorem eachText_attributeSteps {attributes : List String} (h : ∀ a, p ("[" ++ a ++ "]")) :
    EachText p (attributeSteps attributes) := by
  intro s hs
  obtain ⟨a, -, rfl⟩ := List.mem_map.mp hs
  exact List.forall_mem_singleton.mpr (h a)

theorem mem_argumentTexts {arguments : List String} (h : text ∈ argumentTexts arguments) :
    ∃ a ∈ arguments, text = a ++ "," ∨ text = a ++ ");" := by
  induction arguments with
  | nil => simp [argumentTexts, argumentLines] at h
  | cons a rest ih =>
    cases rest with
    | nil => exact ⟨a, List.mem_singleton_self a, .inr (List.mem_singleton.mp h)⟩
    | cons a' rest =>
      have htexts : argumentTexts (a :: a' :: rest) = (a ++ ",") :: argumentTexts (a' :: rest) := rfl
      rw [htexts] at h
      rcases List.mem_cons.mp h with rfl | h
      · exact ⟨a, List.mem_cons_self, .inl rfl⟩
      · obtain ⟨b, hb, htext⟩ := ih h
        exact ⟨b, List.mem_cons_of_mem _ hb, htext⟩

theorem eachText_memberSteps {members : List Member} (h : ∀ m ∈ members, EachText p m.steps) :
    EachText p (memberSteps members) := by
  induction members with
  | nil => exact eachText_nil
  | cons m rest ih =>
    obtain ⟨hm, hrest⟩ := List.forall_mem_cons.mp h
    cases rest with
    | nil => rwa [memberSteps_singleton]
    | cons m' rest =>
      rw [memberSteps_cons_cons, eachText_append, eachText_append]
      exact ⟨hm, eachText_blank, ih hrest⟩

theorem SourceUnit.eachText_steps {u : SourceUnit} (hcomment : p "// <auto-generated/>")
    (hdirective : p "#nullable enable") (hheaders : ∀ header ∈ u.headers, p header)
    (hmembers : ∀ m ∈ u.members, EachText p m.steps) : EachText p u.steps := by
  have henter : EachText p (u.headers.map .enter) := by
    rw [EachText, List.forall_mem_map]
    exact fun header hheader => List.forall_mem_singleton.mpr (hheaders header hheader)
  have hleave : EachText p (u.headers.map fun _ => .leave) := by
    rw [EachText, List.forall_mem_map]
    exact fun _ _ => List.forall_mem_nil _
  have hswitch : EachText p (if u.nullableDirective then [.line "#nullable enable"] else []) := by
    split
    · exact eachText_line.mpr hdirective
    · exact eachText_nil
  have hhead := eachText_append.mpr ⟨eachText_append.mpr ⟨eachText_line.mpr hcomment, hswitch⟩,
    eachText_blank⟩
  have hbody := eachText_append.mpr
    ⟨eachText_append.mpr ⟨henter, eachText_memberSteps hmembers⟩, hleave⟩
  exact eachText_append.mpr ⟨hhead, hbody⟩

end Steps

end Bindable
