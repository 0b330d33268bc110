import Bindable.Source.Literal

/-! Expressions of the generated code, each on one line. -/

namespace Bindable

inductive Expr where
  | literal (value : Literal)
  | ident (name : String)
  | typeOf (type : String)
  | defaultOf (type : String)
  | member (target : Expr) (name : String)
  | cast (type : String) (operand : Expr)
  | unchecked (operand : Expr)
  /-- Arguments may be named. -/
  | call (target : Expr) (arguments : List (Option String × Expr))
  /-- A static lambda. -/
  | lambda (params : List String) (body : Expr)
  deriving Repr, Inhabited

namespace Expr

def null : Expr := .literal .null

def named (name : String) (value : Expr) : Option String × Expr := (some name, value)

def positional (value : Expr) : Option String × Expr := (none, value)

/-- Parentheses around what cannot stand before a dot or an argument list. -/
def enclosePrimary (target : Expr) (text : String) : String :=
  match target with
  | cast .. | lambda .. => "(" ++ text ++ ")"
  | _ => text

/-- Parentheses around what cannot stand after a cast. -/
def encloseOperand (operand : Expr) (text : String) : String :=
  let enclosed := "(" ++ text ++ ")"
  match operand with
  | literal (.integer ..) | literal (.real ..) =>
    match text.toList with
    | '-' :: _ | '(' :: _ => enclosed
    | _ => text
  | cast .. | lambda .. => enclosed
  | _ => text

def renderParams : List String → String
  | [param] => param
  | params => "(" ++ ", ".intercalate params ++ ")"

mutual

def render : Expr → String
  | literal l => l.render
  | ident name => name
  | typeOf type => "typeof(" ++ type ++ ")"
  | defaultOf type => "default(" ++ type ++ ")"
  | member target name => enclosePrimary target target.render ++ "." ++ name
  | cast type operand => "(" ++ type ++ ")" ++ encloseOperand operand operand.render
  | unchecked operand => "unchecked(" ++ operand.render ++ ")"
  | call target arguments =>
    enclosePrimary target target.render ++
      "(" ++ ", ".intercalate (renderArguments arguments) ++ ")"
  | lambda params body => "static " ++ renderParams params ++ " => " ++ body.render

def renderArguments : List (Option String × Expr) → List String
  | [] => []
  | (none, value) :: rest => value.render :: renderArguments rest
  | (some name, value) :: rest => (name ++ ": " ++ value.render) :: renderArguments rest

end

def renderPrimary (e : Expr) : String := enclosePrimary e e.render

end Expr

end Bindable
