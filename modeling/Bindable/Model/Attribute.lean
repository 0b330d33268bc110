import Bindable.Model.Constant
import Bindable.Text.Cut

/-! Attributes and the names they go by. -/

namespace Bindable

structure Location where
  file : String
  line : UInt32
  column : UInt32
  deriving DecidableEq, Repr, Inhabited

structure NamedArgument where
  name : String
  value : Constant
  deriving DecidableEq, Repr, Inhabited

structure Attribute where
  name : String
  typeArguments : List TypeReference
  arguments : List Constant
  namedArguments : List NamedArgument
  location : Option Location
  deriving DecidableEq, Repr, Inhabited

/-- The simple name in any spelling of an attribute: without the global alias, type arguments or
arity, qualification, and the ending that may be left off. -/
def simpleName (name : String) : String :=
  let unaliased := Text.dropLeading globalAlias.toList name.toList
  let unqualified := Text.afterLast '.' (unaliased.takeWhile fun c => c != '<' && c != '\x60')
  match "Attribute".toList.isSuffixOf? unqualified with
  | some (c :: cs) => String.ofList (c :: cs)
  | _ => String.ofList unqualified

namespace Attribute

/-- The last value given for an argument. -/
def named? (a : Attribute) (key : String) : Option Constant :=
  (a.namedArguments.reverse.find? fun arg => arg.name = key).map (·.value)

def flag (a : Attribute) (key : String) : Bool := ((a.named? key).bind (·.toBool?)).getD false

def simpleName (a : Attribute) : String := Bindable.simpleName a.name

/-- The first positional argument, if it is a text that is not empty. -/
def givenName? (a : Attribute) : Option String :=
  match a.arguments.head? with
  | some (.string s) => if s = "" then none else some s
  | _ => none

end Attribute

end Bindable
