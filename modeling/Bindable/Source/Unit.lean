import Bindable.Model.Declaration
import Bindable.Source.Member

/-! Source units: members inside partial type declarations, inside a namespace. -/

namespace Bindable

/-- The head of a partial type declaration. -/
structure Wrapper where
  keyword : String
  name : String
  typeParameters : List String
  deriving DecidableEq, Repr, Inhabited

def Wrapper.header (w : Wrapper) : String :=
  "partial " ++ w.keyword ++ " " ++ w.name ++ parameterList w.typeParameters

structure SourceUnit where
  nullableDirective : Bool
  namespaceName : Option String
  /-- Outermost first; the last one holds the members. -/
  wrappers : List Wrapper
  members : List Member
  deriving Repr, Inhabited

/-- Lines inside one block for each header. -/
def nest : List String → Nat → (Nat → List Line) → List Line
  | [], depth, body => body depth
  | header :: rest, depth, body =>
    { depth, text := header } :: { depth, text := "\x7b" } :: nest rest (depth + 1) body ++
      [{ depth, text := "\x7d" }]

/-- The members with a blank line between neighbours. -/
def memberLines (members : List Member) (depth : Nat) : List Line :=
  ((members.map (·.lines depth)).intersperse [blankLine]).flatten

namespace SourceUnit

def headers (u : SourceUnit) : List String :=
  (u.namespaceName.map ("namespace " ++ ·)).toList ++ u.wrappers.map (·.header)

def lines (u : SourceUnit) : List Line :=
  { depth := 0, text := "// <auto-generated/>" } ::
    (if u.nullableDirective then [{ depth := 0, text := "#nullable enable" }] else []) ++
    [blankLine] ++
    nest u.headers 0 (memberLines u.members)

def render (u : SourceUnit) : String := String.join (u.lines.map (·.render))

end SourceUnit

end Bindable
