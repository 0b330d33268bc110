import Bindable.Text.Letters

/-! Identifiers. -/

namespace Bindable.Text

def isIdentifierStart (c : Char) : Bool := isLetter c || c = '_'

def isIdentifierPart (c : Char) : Bool := isLetter c || isNumber c || c = '_'

/-- A letter or underscore and then letters, numbers and underscores. -/
def isWord : List Char → Bool
  | [] => false
  | c :: cs => isIdentifierStart c && cs.all isIdentifierPart

/-- A word, perhaps after one escaping sign. -/
def isIdentifierChars : List Char → Bool
  | '@' :: cs => isWord cs
  | cs => isWord cs

def isIdentifier (s : String) : Bool := isIdentifierChars s.toList

/-- The property that a getter method is named for. -/
def attachedName? (getter : String) : Option String :=
  match "Get".toList.isPrefixOf? getter.toList with
  | some rest => if isIdentifierChars rest then some (String.ofList rest) else none
  | none => none

end Bindable.Text
