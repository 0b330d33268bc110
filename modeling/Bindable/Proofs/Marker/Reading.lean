import Bindable.Marker.Occurrence

/-! What the reading of a marker depends on. Of the type and the member around it no attribute
matters, and of the compilation only what its types are as enums. An accepted marker gives a
descriptor to which its arguments are applied. -/

namespace Bindable

def Property.bare (p : Property) : Property := { p with attributes := [] }

def Method.bare (m : Method) : Method := { m with attributes := [] }

/-- The declaration without any attribute. -/
def TypeDeclaration.bare (t : TypeDeclaration) : TypeDeclaration :=
  { t with attributes := [], properties := t.properties.map (·.bare),
           methods := t.methods.map (·.bare) }

/-- The marker where no other attribute is left. -/
def Occurrence.bare : Occurrence → Occurrence
  | onType a => onType a
  | onProperty p a => onProperty p.bare a
  | onMethod m a => onMethod m.bare a

def Attribute.withArguments (a : Attribute) (args : List NamedArgument) : Attribute :=
  { a with namedArguments := args }

theorem Attribute.withArguments_family? (a : Attribute) (args : List NamedArgument) :
    (a.withArguments args).family? = a.family? := by
  rw [family?, family?, simpleName]
  rfl

theorem Attribute.withArguments_markedTypes? (a : Attribute) (args : List NamedArgument) :
    (a.withArguments args).markedTypes? = a.markedTypes? := by
  rw [markedTypes?, markedTypes?, withArguments_family?]
  rfl

/-- The marker with other named arguments. -/
def Occurrence.withArguments (args : List NamedArgument) : Occurrence → Occurrence
  | onType a => onType (a.withArguments args)
  | onProperty p a => onProperty p (a.withArguments args)
  | onMethod m a => onMethod m (a.withArguments args)

theorem Occurrence.withArguments_namedArguments (o : Occurrence) :
    o.withArguments o.marker.namedArguments = o := by
  cases o <;> rfl

theorem TypeDeclaration.attachedSetter?_bare (t : TypeDeclaration) (name : String) :
    t.bare.attachedSetter? name = (t.attachedSetter? name).map (·.bare) := by
  rw [attachedSetter?, attachedSetter?, bare, List.find?_map]
  rfl

/-- What a declaration is as an enum. -/
def TypeDeclaration.enumFacts (t : TypeDeclaration) :
    String × Bool × Option Primitive × List EnumMember × Bool :=
  (t.metadataName, t.kind = .enumType, t.underlying, t.enumMembers, t.hasAttribute "Flags")

namespace Compilation

variable {c c' : Compilation}

theorem lookup?_eq (c : Compilation) (t : TypeReference) : c.lookup? t =
    if t.primitive.isSome || t.isTypeParameter then none
    else (c.externalTypes ++ c.types).reverse.find? fun u => u.metadataName = t.lookupName := by
  have hdeclarations : c.declarations.map (·.2) = c.externalTypes ++ c.types := by
    simp [declarations, Function.comp_def, List.zipIdx_map_fst]
  rw [lookup?, locate?]
  split
  · rfl
  · rw [← hdeclarations, ← List.map_reverse, List.find?_map]
    rfl

theorem lookup?_map_enumFacts (c : Compilation) (t : TypeReference) :
    (c.lookup? t).map (·.enumFacts) =
    if t.primitive.isSome || t.isTypeParameter then none
    else ((c.externalTypes ++ c.types).map (·.enumFacts)).reverse.find? fun facts =>
      facts.1 = t.lookupName := by
  rw [lookup?_eq]
  split
  · rfl
  · rw [← List.map_reverse, List.find?_map]
    rfl

end Compilation

theorem Constant.convertToEnum?_congr (s s' : EnumSymbol)
    (hname : s.declaration.metadataName = s'.declaration.metadataName)
    (hmembers : s.declaration.enumMembers = s'.declaration.enumMembers)
    (hunderlying : s.underlying = s'.underlying) (hflags : s.isFlags = s'.isFlags) (v : Constant)
    (display : String) : v.convertToEnum? s display = v.convertToEnum? s' display := by
  simp only [convertToEnum?, EnumSymbol.memberWithValue?, EnumSymbol.isCombinationOfMembers,
    EnumSymbol.declaredBits, hname, hmembers, hunderlying, hflags]
  rfl

namespace Compilation

variable {c c' : Compilation}

theorem convertDefault?_congr
    (h : (c.externalTypes ++ c.types).map (·.enumFacts) =
      (c'.externalTypes ++ c'.types).map (·.enumFacts)) :
    c.convertDefault? = c'.convertDefault? := by
  funext v t
  have hfacts : (c.lookup? t).map (·.enumFacts) = (c'.lookup? t).map (·.enumFacts) := by
    rw [lookup?_map_enumFacts, lookup?_map_enumFacts, h]
  rw [convertDefault?, convertDefault?, enumOf?, enumOf?]
  cases hu : c.lookup? t with
  | none =>
    rw [hu, Option.map_none, eq_comm, Option.map_eq_none_iff] at hfacts
    rw [hfacts]
  | some u =>
    rw [hu, Option.map_some, eq_comm, Option.map_eq_some_iff] at hfacts
    obtain ⟨u', hu', he⟩ := hfacts
    simp only [TypeDeclaration.enumFacts, Prod.mk.injEq, decide_eq_decide] at he
    obtain ⟨hname, hkind, hunderlying, hmembers, hflags⟩ := he
    rw [hu']
    by_cases henum : u.kind = .enumType
    · have henum' : u'.kind = .enumType := hkind.mpr henum
      have hconvert := Constant.convertToEnum?_congr
        { declaration := u, underlying := u.underlying.getD (.integer .int),
          isFlags := u.hasAttribute "Flags" }
        { declaration := u', underlying := u'.underlying.getD (.integer .int),
          isFlags := u'.hasAttribute "Flags" }
        hname.symm hmembers.symm (by rw [hunderlying]) hflags.symm v t.unannotated
      simp only [Option.bind_eq_bind, Option.bind_some, henum, henum', if_true, hconvert]
    · have henum' : u'.kind ≠ .enumType := fun he => henum (hkind.mp he)
      simp only [Option.bind_eq_bind, Option.bind_some, henum, henum', if_false]

theorem read_congr (h : c.convertDefault? = c'.convertDefault?) (t : TypeDeclaration)
    (o : Occurrence) : c.read t o = c'.read t o := by
  have happly : ∀ (base : Descriptor) args,
      base.applyArguments c args = base.applyArguments c' args := by
    intro base args
    simp only [Descriptor.applyArguments, h]
  cases o <;> simp only [read, readOnType, readOnProperty, readOnMethod, happly]

theorem read_bare (c : Compilation) (t : TypeDeclaration) (o : Occurrence) :
    c.read t.bare o.bare = c.read t o := by
  cases o with
  | onType a => rfl
  | onProperty p a => rfl
  | onMethod m a =>
    have hsetter : ∀ name,
        (t.bare.attachedSetter? name).isNone = (t.attachedSetter? name).isNone := by
      intro name
      rw [TypeDeclaration.attachedSetter?_bare, Option.isNone_map]
    simp only [Occurrence.bare, read, readOnMethod, hsetter]
    rfl

end Compilation

/-- A member that is written without a setter. -/
def TypeDeclaration.isReadOnlyAt (t : TypeDeclaration) : Occurrence → Bool
  | .onType _ => false
  | .onProperty p _ => !p.hasSetter
  | .onMethod m _ => ((Text.attachedName? m.name).bind t.attachedSetter?).isNone

/-- What the site of a marker gives. The arguments are applied to it, whatever they are. -/
structure Descriptor.IsBaseOf (base : Descriptor) (c : Compilation) (t : TypeDeclaration)
    (o : Occurrence) : Prop where
  declaringType : base.declaringType = t.reference
  defaultValue : base.defaultValue = none
  isReadOnly : base.isReadOnly = t.isReadOnlyAt o
  read_withArguments : ∀ args, c.read t (o.withArguments args) = base.applyArguments c args

theorem Descriptor.IsBaseOf.read_eq {c : Compilation} {t : TypeDeclaration} {o : Occurrence}
    {base : Descriptor} (h : base.IsBaseOf c t o) :
    c.read t o = base.applyArguments c o.marker.namedArguments := by
  rw [← h.read_withArguments, o.withArguments_namedArguments]

namespace Compilation

variable {c : Compilation} {t : TypeDeclaration} {o : Occurrence} {d : Descriptor}

theorem exists_base_of_onType {a : Attribute}
    (h : (c.read t (.onType a)).descriptor = some d) :
    ∃ base : Descriptor, base.IsBaseOf c t (.onType a) ∧
      base.location = a.location.or t.location ∧
      a.markedTypes? = some (base.propertyType, base.host) ∧ a.givenName? = some base.name ∧
      Text.isIdentifier base.name := by
  rw [read, readOnType] at h
  cases htypes : a.markedTypes? with
  | none => simp [htypes, Reading.nothing] at h
  | some types =>
    cases hname : a.givenName? with
    | none => simp [htypes, hname, Reading.rejected] at h
    | some name =>
      by_cases hid : Text.isIdentifier name
      · refine ⟨{ name, propertyType := types.1, declaringType := t.reference, host := types.2,
                  location := a.location.or t.location },
          ⟨rfl, rfl, rfl, fun args => ?_⟩, rfl, rfl, rfl, hid⟩
        have hname' : (a.withArguments args).givenName? = some name := hname
        simp only [Occurrence.withArguments, read, readOnType, a.withArguments_markedTypes?, htypes,
          hname', hid, if_true]
        rfl
      · simp [htypes, hname, hid, Reading.rejected] at h

theorem exists_base_of_onProperty {p : Property} {a : Attribute}
    (h : (c.read t (.onProperty p a)).descriptor = some d) :
    (a.family? = some .onInstance ∧ !p.isStatic ∧ !p.isIndexer) ∧
      ∃ base : Descriptor, base.IsBaseOf c t (.onProperty p a) ∧
        base.location = a.location.or p.location ∧ base.propertyType = p.type ∧
        base.host = none ∧ base.name = p.name := by
  rw [read, readOnProperty] at h
  split at h
  case isTrue hsite =>
    refine ⟨⟨hsite.1, hsite.2.2⟩,
      { name := p.name, propertyType := p.type, declaringType := t.reference, site := .member,
        isReadOnly := !p.hasSetter, location := a.location.or p.location },
      ⟨rfl, rfl, rfl, fun args => ?_⟩, rfl, rfl, rfl, rfl⟩
    simp only [Occurrence.withArguments, read, readOnProperty]
    exact if_pos hsite
  case isFalse => simp [Reading.nothing] at h

theorem exists_base_of_onMethod {m : Method} {a : Attribute}
    (h : (c.read t (.onMethod m a)).descriptor = some d) :
    (a.family? = some .attached ∧ m.isStatic) ∧
      ∃ base : Descriptor, base.IsBaseOf c t (.onMethod m a) ∧
        base.location = a.location.or m.location ∧ m.returnType = some base.propertyType ∧
        base.host.isSome ∧ Text.attachedName? m.name = some base.name := by
  rw [read, readOnMethod] at h
  split at h
  case isTrue hsite =>
    split at h
    case h_1 name type host hname htype hhost =>
      refine ⟨⟨hsite.1, hsite.2.2⟩,
        { name, propertyType := type, declaringType := t.reference, host := some host.type,
          site := .member, isReadOnly := (t.attachedSetter? name).isNone,
          location := a.location.or m.location },
        ⟨rfl, rfl, ?_, fun args => ?_⟩, rfl, htype, rfl, hname⟩
      · rw [TypeDeclaration.isReadOnlyAt, hname, Option.bind_some]
      simp only [Occurrence.withArguments, read, readOnMethod, hname, htype, hhost]
      exact if_pos hsite
    case h_2 => simp [Reading.nothing] at h
  case isFalse => simp [Reading.nothing] at h

theorem family?_of_markedTypes? {a : Attribute} {type : TypeReference}
    {host : Option TypeReference} (h : a.markedTypes? = some (type, host)) :
    a.family? = some (if host.isSome then .attached else .onInstance) := by
  rw [Attribute.markedTypes?] at h
  split at h
  next hfamily _ =>
    obtain ⟨-, rfl⟩ : _ ∧ none = host := by simpa using h
    exact hfamily
  next hfamily _ =>
    obtain ⟨-, rfl⟩ : _ ∧ some _ = host := by simpa using h
    exact hfamily
  next => simp at h

/-- What an accepted marker gives belongs to its family. -/
theorem exists_base_of_read (h : (c.read t o).descriptor = some d) :
    ∃ base : Descriptor, base.IsBaseOf c t o ∧
      o.family? = some (if base.isAttached then .attached else .onInstance) := by
  cases o with
  | onType a =>
    obtain ⟨base, hbase, -, htypes, -, -⟩ := exists_base_of_onType h
    exact ⟨base, hbase, family?_of_markedTypes? htypes⟩
  | onProperty p a =>
    obtain ⟨hsite, base, hbase, -, -, hhost, -⟩ := exists_base_of_onProperty h
    refine ⟨base, hbase, ?_⟩
    rw [Descriptor.isAttached, hhost]
    exact hsite.1
  | onMethod m a =>
    obtain ⟨hsite, base, hbase, -, -, hhost, -⟩ := exists_base_of_onMethod h
    refine ⟨base, hbase, ?_⟩
    rw [Descriptor.isAttached, hhost]
    exact hsite.1

end Compilation

end Bindable
