import Bindable.Model.Encode
import Bindable.Proofs.Json.RoundTrip

/-! A compilation is read back from the text it is written as. A record is read field by field, each
field by a decoder that undoes its encoder. Constants of floating-point kinds are left out: their
payloads are written as texts. -/

namespace Bindable

open Json

/-- The constants an attribute is given. -/
def Attribute.constants (a : Attribute) : List Constant :=
  a.arguments ++ a.namedArguments.map (·.value)

/-- The constants on a type and on its members. -/
def TypeDeclaration.constants (t : TypeDeclaration) : List Constant :=
  (t.attributes ++ t.properties.flatMap (·.attributes) ++ t.methods.flatMap (·.attributes)).flatMap
    (·.constants)

def Compilation.constants (c : Compilation) : List Constant :=
  (c.types ++ c.externalTypes).flatMap (·.constants)

namespace Json

section Combinators

variable {α : Type} {decode : Json → Option α} {encode : α → Json} {a : α} {names : List String}
  {fields : List (String × Json)} {key : String} {value : Json}

/-- The decoder undoes the encoder, whose numbers can be spelled. -/
structure ReadsBack (decode : Json → Option α) (encode : α → Json) (a : α) : Prop where
  isDecimal : (encode a).IsDecimal
  decode_eq : decode (encode a) = some a

theorem isDecimal_array {items : List Json} (h : ∀ j ∈ items, j.IsDecimal) :
    (Json.array items).IsDecimal := by
  show ItemsAreDecimal items
  induction items with
  | nil => exact trivial
  | cons j items ih =>
    rw [List.forall_mem_cons] at h
    exact ⟨h.1, ih h.2⟩

theorem isDecimal_ofFields (h : ∀ p ∈ fields, p.2.IsDecimal) : (ofFields fields).IsDecimal := by
  show FieldsAreDecimal _
  induction fields with
  | nil => exact trivial
  | cons p fields ih =>
    rw [List.forall_mem_cons] at h
    exact ⟨h.1, ih h.2⟩

theorem isDecimal_ofInt (n : Int) : (Json.ofInt n).IsDecimal :=
  fun _ hd => absurd hd List.not_mem_nil

theorem valuesOf_of_notMem (h : key ∉ fields.map (·.1)) :
    valuesOf key (fields.map fun p => (some p.1, p.2)) = [] := by
  induction fields with
  | nil => rfl
  | cons p fields ih =>
    rw [List.map_cons, List.mem_cons, not_or] at h
    rw [List.map_cons, valuesOf, List.filterMap_cons, if_neg (by simpa using Ne.symm h.1)]
    exact ih h.2

theorem valuesOf_of_mem (hnodup : (fields.map (·.1)).Nodup) (h : (key, value) ∈ fields) :
    valuesOf key (fields.map fun p => (some p.1, p.2)) = [value] := by
  induction fields with
  | nil => contradiction
  | cons p fields ih =>
    rw [List.map_cons, List.nodup_cons] at hnodup
    rw [List.map_cons, valuesOf, List.filterMap_cons]
    rcases List.mem_cons.mp h with rfl | h
    · rw [if_pos rfl]
      exact congrArg (value :: ·) (valuesOf_of_notMem hnodup.1)
    · rw [if_neg]
      · exact ih hnodup.2 h
      · rintro he
        exact hnodup.1 (Option.some.inj he ▸ List.mem_map_of_mem h)

/-- The fields of a record that has all of them. -/
theorem record?_ofFields (hnames : names = fields.map (·.1)) (hnodup : names.Nodup) :
    record? names (ofFields fields) = some (fields.map fun p => some p.2) := by
  subst hnames
  have hkeys : ((fields.map fun p => (some p.1, p.2)).all fun p : Option String × Json =>
      p.1.isSome) = true := by
    simp
  -- Keys are looked up in the whole record, so the induction is on a part of its fields.
  have hfields : ∀ more : List (String × Json), more ⊆ fields → (more.map (·.1)).mapM
      (field? (fields.map fun p => (some p.1, p.2))) = some (more.map fun p => some p.2) := by
    intro more hmore
    induction more with
    | nil => rfl
    | cons p more ih =>
      obtain ⟨hp, hmore⟩ := List.cons_subset.mp hmore
      have hfield : field? (fields.map fun p => (some p.1, p.2)) p.1 = some (some p.2) := by
        rw [field?, valuesOf_of_mem hnodup hp]
      rw [List.map_cons, List.mapM_cons, hfield, ih hmore]
      rfl
  rw [ofFields, record?, if_pos hkeys]
  exact hfields fields (List.Subset.refl fields)

/-- A record is read back when its value is built from its fields. -/
theorem ReadsBack.ofRecord {build : List (Option Json) → Option α}
    (hencode : encode a = ofFields fields)
    (hdecode : decode (ofFields fields) = (record? names (ofFields fields)).bind build)
    (hnames : names = fields.map (·.1)) (hnodup : names.Nodup)
    (hdecimal : ∀ p ∈ fields, p.2.IsDecimal)
    (hbuild : build (fields.map fun p => some p.2) = some a) : ReadsBack decode encode a := by
  refine ⟨hencode ▸ isDecimal_ofFields hdecimal, ?_⟩
  rw [hencode, hdecode, record?_ofFields hnames hnodup, Option.bind_some, hbuild]

theorem readsBack_string (s : String) : ReadsBack string? ofString s := ⟨trivial, rfl⟩

theorem readsBack_bool (b : Bool) : ReadsBack bool? Json.bool b := ⟨trivial, rfl⟩

theorem ReadsBack.list {items : List α} (h : ∀ a ∈ items, ReadsBack decode encode a) :
    ReadsBack (list? decode) (ofList encode) items := by
  constructor
  · refine isDecimal_array fun j hj => ?_
    obtain ⟨a, ha, rfl⟩ := List.mem_map.mp hj
    exact (h a ha).isDecimal
  · rw [ofList, list?]
    induction items with
    | nil => rfl
    | cons a items ih =>
      rw [List.forall_mem_cons] at h
      rw [List.map_cons, List.mapM_cons, h.1.decode_eq, ih h.2]
      rfl

/-- What is read from null cannot be told from nothing. -/
theorem ReadsBack.nullable {o : Option α} (hnull : decode .null = none)
    (h : ∀ a ∈ o, ReadsBack decode encode a) :
    ReadsBack (nullable? decode) (ofOption encode) o := by
  cases o with
  | none => exact ⟨trivial, rfl⟩
  | some a =>
    obtain ⟨hdecimal, hread⟩ := h a rfl
    refine ⟨hdecimal, ?_⟩
    show nullable? decode (encode a) = some (some a)
    cases hj : encode a with
    | null =>
      rw [hj, hnull] at hread
      contradiction
    | _ =>
      rw [hj] at hread
      rw [nullable?, hread, Option.map_some]
      simp

end Combinators

end Json

section Records

theorem readsBack_primitive (stored : Bool) (p : Primitive) :
    ReadsBack (decodePrimitive? stored) Primitive.toJson p :=
  ⟨trivial, Primitive.ofKeyword?_keyword p⟩

theorem readsBack_typeKind (k : TypeKind) :
    ReadsBack decodeTypeKind? (fun k => ofString k.keyword) k :=
  ⟨trivial, TypeKind.ofKeyword?_keyword k⟩

theorem int?_ofInt (n : Int) : (Json.ofInt n).int? = some n := Numeral.toInt?_ofInt n

theorem readsBack_uint32 (n : UInt32) : ReadsBack decodeUInt32? (fun n => .ofNat n.toNat) n := by
  refine ⟨isDecimal_ofInt _, ?_⟩
  have hn := n.toNat_lt
  have hholds : IntegerKind.uint.Holds n.toNat := by
    simp only [IntegerKind.Holds, IntegerKind.least, IntegerKind.greatest]
    omega
  have hint : decodeInteger? .uint (.ofNat n.toNat) = some (n.toNat : Int) := by
    rw [decodeInteger?]
    show (Json.ofInt n.toNat).int?.filter _ = _
    rw [int?_ofInt, Option.filter_some, if_pos (by simpa using hholds)]
  have hback : UInt32.ofInt n.toNat = n := by
    apply UInt32.toNat_inj.mp
    simp only [UInt32.ofInt, UInt32.toNat_ofNat']
    omega
  rw [decodeUInt32?, hint, Option.map_some, hback]

theorem readsBack_int64 (n : Int64) : ReadsBack decodeInt64? (fun n => .ofInt n.toInt) n := by
  refine ⟨isDecimal_ofInt _, ?_⟩
  have hlo := n.le_toInt
  have hhi := n.toInt_lt
  have hholds : IntegerKind.long.Holds n.toInt := by
    simp only [IntegerKind.Holds, IntegerKind.least, IntegerKind.greatest]
    omega
  rw [decodeInt64?, decodeInteger?, int?_ofInt, Option.filter_some, if_pos (by simpa using hholds),
    Option.map_some, Int64.ofInt_toInt]

theorem readsBack_typeReference (stored : Bool) (t : TypeReference) :
    ReadsBack (decodeTypeReference? stored) TypeReference.toJson t := by
  have hprimitive : ReadsBack (nullable? (decodePrimitive? stored)) (ofOption Primitive.toJson)
      t.primitive := .nullable rfl fun p _ => readsBack_primitive stored p
  refine .ofRecord rfl (by unfold decodeTypeReference?; rfl) (by rfl) (by decide) ?_ ?_
  · simp [hprimitive.isDecimal, (readsBack_string _).isDecimal, (readsBack_bool _).isDecimal]
  · simp [required, withDefault, hprimitive.decode_eq, (readsBack_string _).decode_eq,
      (readsBack_bool _).decode_eq]

theorem readsBack_location (l : Location) : ReadsBack decodeLocation? Location.toJson l := by
  refine .ofRecord rfl (by unfold decodeLocation?; rfl) (by rfl) (by decide) ?_ ?_
  · simp [(readsBack_string _).isDecimal, (readsBack_uint32 _).isDecimal]
  · simp [required, (readsBack_string _).decode_eq, (readsBack_uint32 _).decode_eq]

theorem readsBack_place (l : Option Location) :
    ReadsBack (nullable? decodeLocation?) (ofOption Location.toJson) l :=
  .nullable rfl fun l _ => readsBack_location l

theorem readsBack_text (s : Option String) : ReadsBack (nullable? string?) (ofOption ofString) s :=
  .nullable rfl fun s _ => readsBack_string s

theorem readsBack_texts (texts : List String) : ReadsBack (list? string?) (ofList ofString) texts :=
  .list fun s _ => readsBack_string s

theorem readsBack_typeReferences (types : List TypeReference) :
    ReadsBack (list? (decodeTypeReference? false)) (ofList TypeReference.toJson) types :=
  .list fun t _ => readsBack_typeReference false t

theorem readsBack_enclosingType (e : EnclosingType) :
    ReadsBack decodeEnclosingType? EnclosingType.toJson e := by
  have hkind := readsBack_typeKind e.kind
  have hparameters := readsBack_texts e.typeParameters
  refine .ofRecord rfl (by unfold decodeEnclosingType?; rfl) (by rfl) (by decide) ?_ ?_
  · simp [(readsBack_string _).isDecimal, hparameters.isDecimal]
  · simp [required, withDefault, (readsBack_string _).decode_eq, hkind.decode_eq,
      hparameters.decode_eq]

theorem readsBack_enumMember (m : EnumMember) :
    ReadsBack decodeEnumMember? EnumMember.toJson m := by
  refine .ofRecord rfl (by unfold decodeEnumMember?; rfl) (by rfl) (by decide) ?_ ?_
  · simp [(readsBack_string _).isDecimal, (readsBack_int64 _).isDecimal]
  · simp [required, (readsBack_string _).decode_eq, (readsBack_int64 _).decode_eq]

theorem readsBack_accessor (a : Accessor) : ReadsBack decodeAccessor? Accessor.toJson a := by
  refine .ofRecord rfl (by unfold decodeAccessor?; rfl) (by rfl) (by decide) ?_ ?_
  · simp [(readsBack_text _).isDecimal]
  · simp [withDefault, (readsBack_text _).decode_eq]

theorem readsBack_parameter (p : Parameter) : ReadsBack decodeParameter? Parameter.toJson p := by
  have htype := readsBack_typeReference false p.type
  refine .ofRecord rfl (by unfold decodeParameter?; rfl) (by rfl) (by decide) ?_ ?_
  · simp [(readsBack_string _).isDecimal, htype.isDecimal]
  · simp [required, (readsBack_string _).decode_eq, htype.decode_eq]

theorem readsBack_options (o : Options) : ReadsBack decodeOptions? Options.toJson o := by
  refine .ofRecord rfl (by unfold decodeOptions?; rfl) (by rfl) (by decide) ?_ ?_
  · simp [(readsBack_string _).isDecimal, (readsBack_bool _).isDecimal]
  · simp [withDefault, (readsBack_string _).decode_eq, (readsBack_bool _).decode_eq]

end Records

section Constants

variable (depth : Nat)

theorem isDecimal_tagged {tag : ConstantTag} {payload : Json} (h : payload.IsDecimal) :
    (tagged tag payload).IsDecimal :=
  ⟨trivial, h, trivial⟩

/-- The kind comes first, so nothing is stored before it is read. -/
theorem decodeConstant?_tagged (tag : ConstantTag) (payload : Json) :
    decodeConstant? depth (tagged tag payload) = decodePayload? false tag payload := by
  have hrecord : record? ["kind", "value"] (tagged tag payload) =
      some [some (ofString tag.word), some payload] :=
    record?_ofFields (by rfl) (by decide)
  have htag : (ofString tag.word).tag? false ConstantTag.ofWord? = some tag := tag.ofWord?_word
  simp only [tagged, ofFields, List.map_cons, List.map_nil] at hrecord ⊢
  simp [decodeConstant?, hrecord, payloadFirst, htag]

theorem readsBack_constant {v : Constant} (h : v.toFloating? = none) :
    ReadsBack (decodeConstant? depth) Constant.toJson v := by
  cases v with
  | null => exact ⟨⟨trivial, trivial⟩, rfl⟩
  | bool b => exact ⟨isDecimal_tagged trivial, decodeConstant?_tagged _ _ _⟩
  | string s => exact ⟨isDecimal_tagged trivial, decodeConstant?_tagged _ _ _⟩
  | char c =>
    refine ⟨isDecimal_tagged trivial, (decodeConstant?_tagged _ _ _).trans ?_⟩
    simp [decodePayload?, decodeChar?, (readsBack_string _).decode_eq]
  | integer k n holds =>
    refine ⟨isDecimal_tagged (isDecimal_ofInt n), (decodeConstant?_tagged _ _ _).trans ?_⟩
    rw [decodePayload?, int?_ofInt, Option.bind_some, dif_pos holds]
  | single x => contradiction
  | double x => contradiction
  | type t =>
    have ht := readsBack_typeReference false t
    refine ⟨isDecimal_tagged ht.isDecimal, (decodeConstant?_tagged _ _ _).trans ?_⟩
    rw [decodePayload?, ht.decode_eq, Option.map_some]
  | enumeration name n =>
    have hn := readsBack_int64 n
    refine ⟨isDecimal_tagged ⟨trivial, hn.isDecimal, trivial⟩,
      (decodeConstant?_tagged _ _ _).trans ?_⟩
    have hrecord : record? ["typeName", "value"]
        (ofFields [("typeName", ofString name), ("value", .ofInt n.toInt)]) =
          some [some (ofString name), some (.ofInt n.toInt)] :=
      record?_ofFields (by rfl) (by decide)
    simp only [ofFields, List.map_cons, List.map_nil] at hrecord ⊢
    simp [decodePayload?, decodeEnumeration?, hrecord, required, hn.decode_eq,
      (readsBack_string _).decode_eq]

theorem readsBack_namedArgument {a : NamedArgument} (h : a.value.toFloating? = none) :
    ReadsBack (decodeNamedArgument? depth) NamedArgument.toJson a := by
  have hvalue := readsBack_constant (depth + 1) h
  refine .ofRecord rfl (by unfold decodeNamedArgument?; rfl) (by rfl) (by decide) ?_ ?_
  · simp [(readsBack_string _).isDecimal, hvalue.isDecimal]
  · simp [required, (readsBack_string _).decode_eq, hvalue.decode_eq]

theorem readsBack_attribute {a : Attribute} (h : ∀ v ∈ a.constants, v.toFloating? = none) :
    ReadsBack (decodeAttribute? depth) Attribute.toJson a := by
  have harguments : ReadsBack (list? (decodeConstant? (depth + 2))) (ofList Constant.toJson)
      a.arguments :=
    .list fun v hv => readsBack_constant (depth + 2) (h v (List.mem_append_left _ hv))
  have hnamed : ReadsBack (list? (decodeNamedArgument? (depth + 2))) (ofList NamedArgument.toJson)
      a.namedArguments :=
    .list fun n hn =>
      readsBack_namedArgument (depth + 2) (h n.value (List.mem_append_right _ (List.mem_map_of_mem hn)))
  refine .ofRecord rfl (by unfold decodeAttribute?; rfl) (by rfl) (by decide) ?_ ?_
  · simp [(readsBack_string _).isDecimal, (readsBack_typeReferences _).isDecimal,
      harguments.isDecimal, hnamed.isDecimal, (readsBack_place _).isDecimal]
  · simp [required, withDefault, (readsBack_string _).decode_eq,
      (readsBack_typeReferences _).decode_eq, harguments.decode_eq, hnamed.decode_eq,
      (readsBack_place _).decode_eq]

theorem readsBack_attributes {attributes : List Attribute}
    (h : ∀ a ∈ attributes, ∀ v ∈ a.constants, v.toFloating? = none) :
    ReadsBack (list? (decodeAttribute? depth)) (ofList Attribute.toJson) attributes :=
  .list fun a ha => readsBack_attribute depth (h a ha)

theorem readsBack_property {p : Property}
    (h : ∀ a ∈ p.attributes, ∀ v ∈ a.constants, v.toFloating? = none) :
    ReadsBack (decodeProperty? depth) Property.toJson p := by
  have htype := readsBack_typeReference false p.type
  have haccessor (a : Option Accessor) :
      ReadsBack (nullable? decodeAccessor?) (ofOption Accessor.toJson) a :=
    .nullable rfl fun a _ => readsBack_accessor a
  have hattributes := readsBack_attributes (depth + 2) h
  refine .ofRecord rfl (by unfold decodeProperty?; rfl) (by rfl) (by decide) ?_ ?_
  · simp [(readsBack_string _).isDecimal, (readsBack_bool _).isDecimal, htype.isDecimal,
      (haccessor _).isDecimal, (readsBack_text _).isDecimal, hattributes.isDecimal,
      (readsBack_place _).isDecimal]
  · simp [required, withDefault, (readsBack_string _).decode_eq, (readsBack_bool _).decode_eq,
      htype.decode_eq, (haccessor _).decode_eq, (readsBack_text _).decode_eq,
      hattributes.decode_eq, (readsBack_place _).decode_eq]

theorem readsBack_method {m : Method}
    (h : ∀ a ∈ m.attributes, ∀ v ∈ a.constants, v.toFloating? = none) :
    ReadsBack (decodeMethod? depth) Method.toJson m := by
  have hresult : ReadsBack (nullable? (decodeTypeReference? false))
      (ofOption TypeReference.toJson) m.returnType :=
    .nullable rfl fun t _ => readsBack_typeReference false t
  have hparameters : ReadsBack (list? decodeParameter?) (ofList Parameter.toJson) m.parameters :=
    .list fun p _ => readsBack_parameter p
  have hattributes := readsBack_attributes (depth + 2) h
  refine .ofRecord rfl (by unfold decodeMethod?; rfl) (by rfl) (by decide) ?_ ?_
  · simp [(readsBack_string _).isDecimal, (readsBack_bool _).isDecimal, hresult.isDecimal,
      hparameters.isDecimal, (readsBack_text _).isDecimal, hattributes.isDecimal,
      (readsBack_place _).isDecimal]
  · simp [required, withDefault, (readsBack_string _).decode_eq, (readsBack_bool _).decode_eq,
      hresult.decode_eq, hparameters.decode_eq, (readsBack_text _).decode_eq,
      hattributes.decode_eq, (readsBack_place _).decode_eq]

theorem readsBack_typeDeclaration {t : TypeDeclaration}
    (h : ∀ v ∈ t.constants, v.toFloating? = none) :
    ReadsBack (decodeTypeDeclaration? depth) TypeDeclaration.toJson t := by
  simp only [TypeDeclaration.constants, List.mem_flatMap, List.mem_append, or_assoc] at h
  have hkind := readsBack_typeKind t.kind
  have henclosing : ReadsBack (list? decodeEnclosingType?) (ofList EnclosingType.toJson)
      t.enclosing := .list fun e _ => readsBack_enclosingType e
  have hattributes := readsBack_attributes (depth + 2) fun a ha v hv =>
    h v ⟨a, .inl ha, hv⟩
  have hproperties : ReadsBack (list? (decodeProperty? (depth + 2))) (ofList Property.toJson)
      t.properties :=
    .list fun p hp => readsBack_property (depth + 2) fun a ha v hv => h v ⟨a, .inr (.inl ⟨p, hp, ha⟩), hv⟩
  have hmethods : ReadsBack (list? (decodeMethod? (depth + 2))) (ofList Method.toJson) t.methods :=
    .list fun m hm => readsBack_method (depth + 2) fun a ha v hv => h v ⟨a, .inr (.inr ⟨m, hm, ha⟩), hv⟩
  have hunderlying : ReadsBack (nullable? (decodePrimitive? false)) (ofOption Primitive.toJson)
      t.underlying := .nullable rfl fun p _ => readsBack_primitive false p
  have hmembers : ReadsBack (list? decodeEnumMember?) (ofList EnumMember.toJson) t.enumMembers :=
    .list fun m _ => readsBack_enumMember m
  refine .ofRecord rfl (by unfold decodeTypeDeclaration?; rfl) (by rfl) (by decide) ?_ ?_
  · simp [(readsBack_text _).isDecimal, (readsBack_string _).isDecimal,
      (readsBack_texts _).isDecimal, henclosing.isDecimal, (readsBack_bool _).isDecimal,
      hattributes.isDecimal, hproperties.isDecimal, hmethods.isDecimal, hunderlying.isDecimal,
      hmembers.isDecimal, (readsBack_place _).isDecimal]
  · simp [required, withDefault, (readsBack_text _).decode_eq, (readsBack_string _).decode_eq,
      hkind.decode_eq, (readsBack_texts _).decode_eq, henclosing.decode_eq,
      (readsBack_bool _).decode_eq, hattributes.decode_eq, hproperties.decode_eq,
      hmethods.decode_eq, hunderlying.decode_eq, hmembers.decode_eq, (readsBack_place _).decode_eq]

theorem readsBack_compilation {c : Compilation} (h : ∀ v ∈ c.constants, v.toFloating? = none) :
    ReadsBack Compilation.ofJson? Compilation.toJson c := by
  simp only [Compilation.constants, List.mem_flatMap, List.mem_append] at h
  have htypes : ReadsBack (list? (decodeTypeDeclaration? 3)) (ofList TypeDeclaration.toJson)
      c.types := .list fun t ht => readsBack_typeDeclaration 3 fun v hv => h v ⟨t, .inl ht, hv⟩
  have hexternal : ReadsBack (list? (decodeTypeDeclaration? 3)) (ofList TypeDeclaration.toJson)
      c.externalTypes :=
    .list fun t ht => readsBack_typeDeclaration 3 fun v hv => h v ⟨t, .inr ht, hv⟩
  have hoptions := readsBack_options c.options
  refine .ofRecord rfl (by unfold Compilation.ofJson?; rfl) (by rfl) (by decide) ?_ ?_
  · simp [(readsBack_string _).isDecimal, (readsBack_texts _).isDecimal, htypes.isDecimal,
      hexternal.isDecimal, hoptions.isDecimal]
  · simp [withDefault, (readsBack_string _).decode_eq, (readsBack_texts _).decode_eq,
      htypes.decode_eq, hexternal.decode_eq, hoptions.decode_eq]

end Constants

namespace Compilation

theorem parse?_document {c : Compilation} (h : ∀ v ∈ c.constants, v.toFloating? = none) :
    parse? c.write = some c := by
  obtain ⟨hdecimal, hread⟩ := readsBack_compilation h
  rw [parse?, write, Json.parse?_render hdecimal, Option.bind_some, hread]

theorem parse?_indented {c : Compilation} (h : ∀ v ∈ c.constants, v.toFloating? = none)
    (depth : Nat) : parse? (c.toJson.pretty depth) = some c := by
  obtain ⟨hdecimal, hread⟩ := readsBack_compilation h
  rw [parse?, Json.parse?_pretty hdecimal, Option.bind_some, hread]

/-- A compilation without floating-point constants is read back from its document, on one line or
indented. -/
theorem parse?_text {c : Compilation} (h : ∀ v ∈ c.constants, v.toFloating? = none) :
    parse? c.write = some c ∧ ∀ depth, parse? (c.toJson.pretty depth) = some c :=
  ⟨parse?_document h, parse?_indented h⟩

/-- A marked type with a constant of every kind that is read back, beside an enum. -/
def mixedConstants : Compilation where
  types := [{ (default : TypeDeclaration) with
    namespaceName := some "Demo", name := "Label", typeParameters := ["T"]
    attributes := [{ (default : Attribute) with
      name := "BindableProperty", typeArguments := [default]
      arguments := [.null, .bool true, .char 'x', .string "a\"\n", .type default]
      namedArguments := [⟨"DefaultValue", .enumeration "Demo.Mode" (-1)⟩,
        ⟨"Size", .integer .ulong 18446744073709551615 (by decide)⟩]
      location := some ⟨"Label.cs", 3, 9⟩ }] }]
  externalTypes := [{ (default : TypeDeclaration) with
    name := "Mode", kind := .enumType, underlying := some (.integer .long)
    enumMembers := [⟨"None", -9223372036854775808⟩] }]

theorem parse?_text_mixedConstants :
    (∀ v ∈ mixedConstants.constants, v.toFloating? = none) ∧
      mixedConstants.constants.length = 7 ∧
      parse? mixedConstants.write = some mixedConstants := by
  have h : ∀ v ∈ mixedConstants.constants, v.toFloating? = none := by decide
  exact ⟨h, rfl, (parse?_text h).1⟩

end Compilation

end Bindable
