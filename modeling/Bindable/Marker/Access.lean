/-! Access levels and binding modes, as marker arguments give them. -/

namespace Bindable

inductive Visibility where
  | publicAccess | protectedAccess | internalAccess | privateAccess
  | protectedInternal | protectedPrivate
  deriving DecidableEq, Repr, Inhabited

namespace Visibility

def all : List Visibility :=
  [.publicAccess, .protectedAccess, .internalAccess, .privateAccess, .protectedInternal,
    .protectedPrivate]

/-- The four simple levels are single bits, the composites unions of two of them. -/
def flags : Visibility → Int
  | .publicAccess => 1
  | .protectedAccess => 2
  | .internalAccess => 4
  | .privateAccess => 8
  | .protectedInternal => 6
  | .protectedPrivate => 10

def ofFlags? (n : Int) : Option Visibility := all.find? fun v => v.flags = n

def name : Visibility → String
  | .publicAccess => "Public"
  | .protectedAccess => "Protected"
  | .internalAccess => "Internal"
  | .privateAccess => "Private"
  | .protectedInternal => "ProtectedInternal"
  | .protectedPrivate => "ProtectedPrivate"

def ofName? (s : String) : Option Visibility := all.find? fun v => v.name = s

def modifiers : Visibility → List String
  | .publicAccess => ["public"]
  | .protectedAccess => ["protected"]
  | .internalAccess => ["internal"]
  | .privateAccess => ["private"]
  | .protectedInternal => ["protected", "internal"]
  | .protectedPrivate => ["private", "protected"]

def rank : Visibility → Nat
  | .publicAccess => 5
  | .protectedInternal => 4
  | .protectedAccess | .internalAccess => 3
  | .protectedPrivate => 2
  | .privateAccess => 1

/-- Neither of `protected` and `internal` is stricter than the other. -/
def stricterThan (v w : Visibility) : Bool := v.rank < w.rank

end Visibility

inductive BindingMode where
  | default | twoWay | oneWay | oneWayToSource | oneTime
  deriving DecidableEq, Repr, Inhabited

namespace BindingMode

def all : List BindingMode := [.default, .twoWay, .oneWay, .oneWayToSource, .oneTime]

def number : BindingMode → Int
  | .default => 0
  | .twoWay => 1
  | .oneWay => 2
  | .oneWayToSource => 3
  | .oneTime => 4

def ofNumber? (n : Int) : Option BindingMode := all.find? fun m => m.number = n

def name : BindingMode → String
  | .default => "Default"
  | .twoWay => "TwoWay"
  | .oneWay => "OneWay"
  | .oneWayToSource => "OneWayToSource"
  | .oneTime => "OneTime"

end BindingMode

/-- A mode with a name, or any other number. -/
inductive DefaultMode where
  | known (mode : BindingMode)
  | raw (number : Int)
  deriving DecidableEq, Repr, Inhabited

def DefaultMode.ofNumber (n : Int) : DefaultMode :=
  match BindingMode.ofNumber? n with
  | some mode => .known mode
  | none => .raw n

end Bindable
