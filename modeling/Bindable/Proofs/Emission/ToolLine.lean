import Bindable.Proofs.Emission.Wiring

/-! Attributes of generated members. A member has at most the one that names the tool, which takes a
line of its own before the lines that the member has without it. -/

namespace Bindable

namespace Member

def attributes : Member → List String
  | field f => f.attributes
  | property p => p.attributes
  | method m => m.attributes

/-- The member without attributes. -/
def bare : Member → Member
  | field f => .field { f with attributes := [] }
  | property p => .property { p with attributes := [] }
  | method m => .method { m with attributes := [] }

theorem lines_eq (m : Member) (depth : Nat) :
    m.lines depth = attributeLines depth m.attributes ++ m.bare.lines depth := by
  cases m with
  | field f => rfl
  | property p =>
    show attributeLines depth p.attributes ++ _ ++ _ ++ _ ++ _ = _
    simp only [List.append_assoc]
    rfl
  | method m => rfl

end Member

namespace Options

/-- The line that names the tool. -/
def toolLine (o : Options) : String :=
  "[" ++ (Framework.generatedCode ++ "(\"" ++ o.toolName ++ "\", \"" ++ o.toolVersion ++ "\")") ++ "]"

theorem attributeLines_memberAttributes (o : Options) (depth : Nat) :
    attributeLines depth o.memberAttributes =
      if o.generatedCodeAttribute then [{ depth, text := o.toolLine }] else [] := by
  rw [memberAttributes]
  split <;> rfl

end Options

namespace Descriptor

variable {o : Options} {d : Descriptor} {m : Member}

/-- Fields, properties and accessors are marked, methods without a body are not. -/
theorem attributes_of_mem (hm : m ∈ d.members o) :
    m.attributes = if m.stub?.isSome then [] else o.memberAttributes := by
  have hfields : ∀ m ∈ d.keyFields o, m.stub? = none ∧ m.attributes = o.memberAttributes := by
    rw [keyFields]
    cases d.shape <;> simp [staticField, Member.stub?, Member.attributes]
  have haccessors : ∀ m ∈ d.accessors o, m.stub? = none ∧ m.attributes = o.memberAttributes := by
    rw [accessors]
    cases d.site <;> cases d.host <;>
      simp [instanceAccessor, attachedAccessors, Member.stub?, Member.attributes]
  have hstubs : ∀ m ∈ d.stubs, m.stub?.isSome ∧ m.attributes = [] := by
    rw [stubs]
    cases d.hasValidate <;> cases d.hasCoerce <;> cases d.emitsFactory <;>
      simp [stub, Member.stub?, Member.attributes]
  rw [members, List.mem_append, List.mem_append] at hm
  obtain (hm | hm) | hm := hm
  · simp [hfields m hm]
  · simp [haccessors m hm]
  · simp [hstubs m hm]

theorem lines_of_mem (hm : m ∈ d.members o) (depth : Nat) :
    m.lines depth =
      (if o.generatedCodeAttribute ∧ m.stub? = none then [{ depth, text := o.toolLine }] else []) ++
        m.bare.lines depth := by
  rw [m.lines_eq, attributes_of_mem hm]
  cases hstub : m.stub? with
  | none => simp [Options.attributeLines_memberAttributes]
  | some s => simp [attributeLines]

end Descriptor

end Bindable
