import Bindable.Conversion
import Bindable.Diagnostic
import Bindable.Marker.Descriptor

/-! The named arguments of a marker, read from left to right. -/

namespace Bindable

/-- What the arguments so far have set. -/
structure Settings where
  defaultMode : DefaultMode := .known .oneWay
  getVisibility : Visibility := .publicAccess
  setVisibility : Option Visibility := none
  isReadOnly : Bool := false
  hasFactory : Bool := false
  hasCoerce : Bool := false
  hasValidate : Bool := false
  defaultValue : Option Constant := none
  diagnostics : List Diagnostic := []
  deriving DecidableEq, Repr, Inhabited

def Constant.visibility? (v : Constant) : Option Visibility := v.toInt?.bind Visibility.ofFlags?

def Constant.isTrue (v : Constant) : Bool := v.toBool?.getD false

def invalidMode (property : String) (location : Option Location) (v : Constant) : Diagnostic :=
  .report .invalidDefaultMode [v.describe, property] location

def invalidVisibility (argument property : String) (location : Option Location) (v : Constant) :
    Diagnostic :=
  .report .invalidVisibility [v.describe, argument, property] location

namespace Settings

def report (s : Settings) (d : Diagnostic) : Settings :=
  { s with diagnostics := s.diagnostics ++ [d] }

/-- An unknown number is kept and reported. -/
def setMode (s : Settings) (property : String) (location : Option Location) (v : Constant) :
    Settings :=
  match v.toInt? with
  | none => s.report (invalidMode property location v)
  | some n =>
    let s := { s with defaultMode := .ofNumber n }
    if (BindingMode.ofNumber? n).isSome then s else s.report (invalidMode property location v)

/-- One argument. A later one overrides an earlier one, except that `IsReadOnly` only adds; a level
that is none of the six is reported and changes nothing. -/
def apply (property : String) (location : Option Location) (s : Settings) (arg : NamedArgument) :
    Settings :=
  let v := arg.value
  match arg.name with
  | "DefaultMode" => s.setMode property location v
  | "Visibility" =>
    match v.visibility? with
    | some level => { s with getVisibility := level }
    | none => s.report (invalidVisibility arg.name property location v)
  | "WriteVisibility" =>
    match v.visibility? with
    | some level => { s with setVisibility := some level }
    | none => s.report (invalidVisibility arg.name property location v)
  | "DefaultValue" => { s with defaultValue := some v }
  | "DefaultValueFactory" => { s with hasFactory := v.isTrue }
  | "CoerceValueCallback" => { s with hasCoerce := v.isTrue }
  | "ValidateValueCallback" => { s with hasValidate := v.isTrue }
  | "IsReadOnly" => { s with isReadOnly := s.isReadOnly || v.isTrue }
  | _ => s

def ofArguments (property : String) (location : Option Location) (isReadOnly : Bool)
    (args : List NamedArgument) : Settings :=
  args.foldl (apply property location) { isReadOnly }

end Settings

/-- The outcome of a marker: a descriptor unless it was rejected, and what there is to report. -/
structure Reading where
  descriptor : Option Descriptor
  diagnostics : List Diagnostic
  deriving Repr, Inhabited

namespace Reading

/-- A marker that is not one of its site's, or not of an accepted form: passed over silently. -/
def nothing : Reading := { descriptor := none, diagnostics := [] }

def rejected (d : Diagnostic) : Reading := { descriptor := none, diagnostics := [d] }

end Reading

namespace Descriptor

/-- Applies the arguments of a marker to the descriptor its site gives. A write level equal to the
read level is reported, and so is a factory beside a default, which then is not used. A default that
has no expression of the property's type rejects the marker. -/
def applyArguments (c : Compilation) (base : Descriptor) (args : List NamedArgument) : Reading :=
  let location := base.location
  let s := Settings.ofArguments base.name location base.isReadOnly args
  let redundant :=
    if s.setVisibility = some s.getVisibility then
      [Diagnostic.report .redundantWriteVisibility [base.name] location]
    else []
  let d : Descriptor :=
    { base with
      defaultMode := s.defaultMode
      getVisibility := s.getVisibility
      setVisibility := s.setVisibility
      isReadOnly := s.isReadOnly
      hasFactory := s.hasFactory
      hasCoerce := s.hasCoerce
      hasValidate := s.hasValidate }
  match s.defaultValue with
  | none => { descriptor := some d, diagnostics := s.diagnostics ++ redundant }
  | some v =>
    if v.isNull && s.hasFactory then
      { descriptor := some d, diagnostics := s.diagnostics ++ redundant }
    else
      let conflict :=
        if s.hasFactory then [Diagnostic.report .defaultValueAndFactory [base.name] location]
        else []
      match c.convertDefault? v base.propertyType with
      | some e =>
        { descriptor := some { d with defaultValue := some e }
          diagnostics := s.diagnostics ++ redundant ++ conflict }
      | none =>
        { descriptor := none
          diagnostics := s.diagnostics ++ redundant ++ conflict ++
            [Diagnostic.report .defaultValueNotSupported
              [v.describe, base.propertyType.display, base.name] location] }

end Descriptor

end Bindable
