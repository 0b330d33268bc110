import Bindable.Proofs.Conversion.EnumDefault
import Bindable.Proofs.Conversion.RealLiterals
import Bindable.Proofs.Marker.Reading
import Bindable.Proofs.Source.OneLine

/-! The texts in the expression of a default value. They are numerals, keywords, and names that the
constant, the type or a member of an enum brings along, so that a line break can only come from one
of these names. -/

namespace Bindable

def Expr.IsOneLine (e : Expr) : Prop := ∀ s ∈ e.texts, OneLine s

/-- The names of types in a constant. -/
def Constant.names : Constant → List String
  | type t => [t.name]
  | enumeration name _ => [name]
  | _ => []

namespace TypeReference

variable {t : TypeReference}

theorem oneLine_unannotated (h : OneLine t.name) : OneLine t.unannotated := by
  rw [unannotated]
  split
  · exact oneLine_keyword _
  · split
    · exact h
    · exact oneLine_append.mpr ⟨by decide, h⟩

theorem oneLine_display (h : OneLine t.name) : OneLine t.display := by
  rw [display]
  split
  · exact oneLine_append.mpr ⟨oneLine_unannotated h, by decide⟩
  · exact oneLine_unannotated h

theorem oneLine_displayAsOperand (h : OneLine t.name) : OneLine t.displayAsOperand := by
  rw [displayAsOperand]
  split
  · exact oneLine_display h
  · exact oneLine_unannotated h

end TypeReference

section Numbers

variable {target : Primitive} {source e : Expr} {n : Int}

theorem oneLine_of_isDecimalText {text : String} (h : IsDecimalText text) : OneLine text := by
  obtain ⟨sign, whole, fraction, htext, hsign, hwhole, hfraction⟩ := h
  have hdigit : ¬ '\n'.isDigit := by decide
  have hsign : '\n' ∉ sign := by
    rcases hsign with rfl | rfl <;> decide
  have hfraction : '\n' ∉ fraction := by
    rcases hfraction with rfl | ⟨places, rfl, hplaces⟩
    · exact List.not_mem_nil
    · rw [List.mem_cons, not_or]
      exact ⟨by decide, fun h => hdigit (hplaces.2 _ h)⟩
  rw [OneLine, htext, List.mem_append, List.mem_append, not_or, not_or]
  exact ⟨⟨hsign, fun h => hdigit (hwhole.2 _ h)⟩, hfraction⟩

theorem Floating.oneLine_text (f : FloatFormat) (x : Floating) : OneLine (x.text f) := by
  cases x with
  | finite negative units => exact oneLine_of_isDecimalText (isDecimalText_finite f negative units)
  | infinite negative =>
    show OneLine (sign negative ++ "inf")
    cases negative <;> decide

theorem isOneLine_real {kind : Primitive} {text : String} (h : OneLine text) :
    (Expr.literal (.real kind text)).IsOneLine :=
  List.forall_mem_singleton.mpr h

theorem isOneLine_integerLiteral (target : Primitive) (n : Int) :
    (integerLiteral target n).IsOneLine := by
  rw [integerLiteral]
  split <;> exact List.forall_mem_nil _

theorem isOneLine_naturalInteger (n : Int) : (naturalInteger n).IsOneLine := by
  rw [naturalInteger]
  split <;> exact isOneLine_integerLiteral _ n

theorem isOneLine_cast {type : String} (htype : OneLine type) (h : source.IsOneLine) :
    (Expr.cast type source).IsOneLine :=
  List.forall_mem_cons.mpr ⟨htype, h⟩

theorem isOneLine_uncheckedCast (h : source.IsOneLine) :
    (uncheckedCast target source).IsOneLine :=
  isOneLine_cast (oneLine_keyword target) h

theorem isOneLine_convertInteger? {implicit : Bool} (hsource : source.IsOneLine)
    (h : convertInteger? n source target implicit = some e) : e.IsOneLine := by
  obtain ⟨-, rfl⟩ | ⟨-, rfl⟩ | ⟨-, rfl⟩ := convertInteger?_cases h
  · exact isOneLine_real (oneLine_toString n)
  · exact isOneLine_integerLiteral target n
  · exact isOneLine_uncheckedCast hsource

end Numbers

namespace Constant

variable {v : Constant} {target : Primitive} {e : Expr} {n : Int}

theorem isOneLine_literal? (hv : ∀ s ∈ v.names, OneLine s) (h : v.literal? = some e) :
    e.IsOneLine := by
  cases v with
  | char c =>
    rw [literal?] at h
    split at h
    · cases h
    · obtain rfl := Option.some_inj.mp h
      exact isOneLine_integerLiteral _ _
  | integer kind n holds =>
    obtain rfl := Option.some_inj.mp h
    exact isOneLine_integerLiteral _ n
  | single x =>
    obtain rfl := Option.some_inj.mp h
    exact isOneLine_real (x.oneLine_text _)
  | double x =>
    obtain rfl := Option.some_inj.mp h
    exact isOneLine_real (x.oneLine_text _)
  | type t =>
    obtain rfl := Option.some_inj.mp h
    have hname : OneLine t.name := hv _ (List.mem_singleton_self _)
    exact List.forall_mem_singleton.mpr (TypeReference.oneLine_displayAsOperand hname)
  | null | bool | string =>
    obtain rfl := Option.some_inj.mp h
    exact List.forall_mem_nil _
  | enumeration => cases h

theorem isOneLine_convertReal? {x : Floating} (hv : ∀ s ∈ v.names, OneLine s)
    (h : convertReal? v x target = some e) : e.IsOneLine := by
  obtain ⟨-, source, hliteral, ⟨-, f, rfl⟩ | ⟨n, -, -, rfl⟩ | rfl⟩ := convertReal?_cases h
  · exact isOneLine_real (x.oneLine_text f)
  · exact isOneLine_integerLiteral target n
  · exact isOneLine_uncheckedCast (isOneLine_literal? hv hliteral)

theorem isOneLine_convert? (hv : ∀ s ∈ v.names, OneLine s) (h : v.convert? target = some e) :
    e.IsOneLine := by
  obtain hliteral | ⟨-, name, m, rfl, rfl⟩ | ⟨n, -, h⟩ | ⟨x, -, h⟩ := convert?_cases h
  · exact isOneLine_literal? hv hliteral
  · have hname : OneLine name := hv _ (List.mem_singleton_self _)
    obtain ⟨-, k, hk⟩ := (Text.dropLeadings_eq_iff (s := name.toList)
      (by decide : globalAlias.toList ≠ [])).mp rfl
    have hcut : OneLine (String.ofList (Text.dropLeadings globalAlias.toList name.toList)) := by
      rw [OneLine, String.toList_ofList]
      intro hmem
      exact hname (hk ▸ List.mem_append_right _ hmem)
    exact isOneLine_cast (oneLine_append.mpr ⟨by decide, hcut⟩) (isOneLine_naturalInteger _)
  · refine isOneLine_convertInteger? ?_ h
    cases hsource : v.literal? with
    | none => exact isOneLine_naturalInteger n
    | some source => exact isOneLine_literal? hv hsource
  · exact isOneLine_convertReal? hv h

theorem isOneLine_convertToEnum? {s : EnumSymbol} {display : String}
    (hv : ∀ s ∈ v.names, OneLine s) (hmembers : ∀ m ∈ s.declaration.enumMembers, OneLine m.name)
    (hdisplay : OneLine display) (h : v.convertToEnum? s display = some e) : e.IsOneLine := by
  obtain ⟨n, hn, -⟩ := Option.bind_eq_some_iff.mp h
  rw [convertToEnum?_eq hn] at h
  split at h
  next m hm =>
    obtain rfl := Option.some_inj.mp h
    have hname := hmembers m (List.mem_of_find?_eq_some hm)
    exact List.forall_mem_cons.mpr ⟨hdisplay, List.forall_mem_singleton.mpr hname⟩
  next =>
    split at h
    · obtain ⟨value, hvalue, rfl⟩ := Option.map_eq_some_iff.mp h
      refine isOneLine_cast hdisplay ?_
      cases v with
      | enumeration name m => exact isOneLine_convertInteger? (isOneLine_naturalInteger n) hvalue
      | _ => exact isOneLine_convert? hv hvalue
    · cases h

end Constant

/-- The default of a property takes its names from the constant, the type and the enum. -/
theorem Compilation.isOneLine_convertDefault? {c : Compilation} {v : Constant} {t : TypeReference}
    {e : Expr} (hv : ∀ s ∈ v.names, OneLine s) (ht : OneLine t.name)
    (hmembers : ∀ u ∈ c.externalTypes ++ c.types, ∀ m ∈ u.enumMembers, OneLine m.name)
    (h : c.convertDefault? v t = some e) : e.IsOneLine := by
  have hnull : Expr.null.IsOneLine := List.forall_mem_nil _
  rw [convertDefault?] at h
  split at h
  next symbol hsymbol =>
    have hdeclaration : symbol.declaration ∈ c.externalTypes ++ c.types := by
      obtain ⟨u, hu, hsymbol⟩ := Option.bind_eq_some_iff.mp hsymbol
      have hmem : u ∈ c.externalTypes ++ c.types := by
        rw [Compilation.lookup?_eq] at hu
        split at hu
        · cases hu
        · exact List.mem_reverse.mp (List.mem_of_find?_eq_some hu)
      split at hsymbol
      · obtain rfl := Option.some_inj.mp hsymbol
        exact hmem
      · cases hsymbol
    split at h
    · split at h
      · exact Option.some_inj.mp h ▸ hnull
      · cases h
    · exact Constant.isOneLine_convertToEnum? hv (hmembers _ hdeclaration)
        (TypeReference.oneLine_unannotated ht) h
  next =>
    split at h
    · split at h
      · exact Option.some_inj.mp h ▸ hnull
      · cases h
    · obtain ⟨target, -, h⟩ := Option.bind_eq_some_iff.mp h
      exact Constant.isOneLine_convert? hv h

end Bindable
