import Bindable.Source.Expr

/-! Members of generated types, as indented lines. -/

namespace Bindable

structure Line where
  depth : Nat
  text : String
  deriving DecidableEq, Repr, Inhabited

/-- Four blanks a level; an empty line has no indentation. -/
def Line.render (l : Line) : String :=
  if l.text = "" then "\n" else String.join (List.replicate l.depth "    ") ++ l.text ++ "\n"

def blankLine : Line := { depth := 0, text := "" }

structure FieldMember where
  attributes : List String
  modifiers : List String
  type : String
  name : String
  initializer : Expr
  deriving Repr, Inhabited

structure AccessorBody where
  modifiers : List String
  body : Expr
  deriving Repr, Inhabited

structure PropertyMember where
  attributes : List String
  modifiers : List String
  type : String
  name : String
  getter : AccessorBody
  setter : Option AccessorBody
  deriving Repr, Inhabited

structure MethodParameter where
  type : String
  name : String
  deriving DecidableEq, Repr, Inhabited

structure MethodMember where
  attributes : List String
  modifiers : List String
  returnType : String
  name : String
  parameters : List MethodParameter
  /-- A partial method is declared without a body. -/
  body : Option Expr
  deriving Repr, Inhabited

inductive Member where
  | field (value : FieldMember)
  | property (value : PropertyMember)
  | method (value : MethodMember)
  deriving Repr, Inhabited

def attributeLines (depth : Nat) (attributes : List String) : List Line :=
  attributes.map fun a => { depth, text := "[" ++ a ++ "]" }

def words (ws : List String) : String := " ".intercalate ws

/-- One argument a line, the last one closing the call. -/
def argumentLines (depth : Nat) : List String → List Line
  | [] => []
  | [last] => [{ depth, text := last ++ ");" }]
  | argument :: rest => { depth, text := argument ++ "," } :: argumentLines depth rest

namespace FieldMember

def head (f : FieldMember) : String := words f.modifiers ++ " " ++ f.type ++ " " ++ f.name ++ " = "

/-- A call with named arguments takes a line for each of its arguments. -/
def lines (depth : Nat) (f : FieldMember) : List Line :=
  attributeLines depth f.attributes ++
    match f.initializer with
    | .call target arguments =>
      if arguments.any fun a => a.1.isSome then
        { depth, text := f.head ++ target.renderPrimary ++ "(" } ::
          argumentLines (depth + 1) (Expr.renderArguments arguments)
      else [{ depth, text := f.head ++ f.initializer.render ++ ";" }]
    | e => [{ depth, text := f.head ++ e.render ++ ";" }]

end FieldMember

def AccessorBody.line (depth : Nat) (keyword : String) (a : AccessorBody) : Line :=
  let head := words a.modifiers
  { depth
    text := (if head = "" then "" else head ++ " ") ++ keyword ++ " => " ++ a.body.render ++ ";" }

namespace PropertyMember

def lines (depth : Nat) (p : PropertyMember) : List Line :=
  attributeLines depth p.attributes ++
    [{ depth, text := words p.modifiers ++ " " ++ p.type ++ " " ++ p.name },
      { depth, text := "\x7b" }] ++
    [p.getter.line (depth + 1) "get"] ++
    (p.setter.map (·.line (depth + 1) "set")).toList ++
    [{ depth, text := "\x7d" }]

end PropertyMember

namespace MethodMember

def signature (m : MethodMember) : String :=
  words m.modifiers ++ " " ++ m.returnType ++ " " ++ m.name ++ "(" ++
    ", ".intercalate (m.parameters.map fun p => p.type ++ " " ++ p.name) ++ ")"

def lines (depth : Nat) (m : MethodMember) : List Line :=
  attributeLines depth m.attributes ++
    match m.body with
    | some body => [{ depth, text := m.signature ++ " => " ++ body.render ++ ";" }]
    | none => [{ depth, text := m.signature ++ ";" }]

end MethodMember

namespace Member

def name : Member → String
  | field f => f.name
  | property p => p.name
  | method m => m.name

def lines (depth : Nat) : Member → List Line
  | field f => f.lines depth
  | property p => p.lines depth
  | method m => m.lines depth

end Member

end Bindable
