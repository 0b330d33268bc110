import Bindable.Json.Tree

/-! Writing JSON text, on one line or with two blanks of indentation per level. -/

namespace Bindable

def hexDigit (n : Nat) : Char := Char.ofNat (if n < 10 then n + 48 else n + 87)

def Numeral.render (n : Numeral) : String :=
  let sign := if n.negative then "-" else ""
  let fraction :=
    if n.fraction = [] then "" else "." ++ String.join (n.fraction.map fun d => toString d)
  let exponent :=
    match n.exponent with
    | none => ""
    | some e => "e" ++ toString e
  sign ++ toString n.whole ++ fraction ++ exponent

namespace Json

/-- Quotes, backslashes and control characters are escaped, all else stands for itself. -/
def escape (c : Char) : List Char :=
  if c = '"' then ['\\', '"']
  else if c = '\\' then ['\\', '\\']
  else if c = '\x08' then ['\\', 'b']
  else if c = '\x0c' then ['\\', 'f']
  else if c = '\n' then ['\\', 'n']
  else if c = '\r' then ['\\', 'r']
  else if c = '\t' then ['\\', 't']
  else if c.toNat < 0x20 then
    ['\\', 'u', '0', '0', hexDigit (c.toNat / 16), hexDigit (c.toNat % 16)]
  else [c]

def quote (s : String) : String := "\"" ++ String.ofList (s.toList.flatMap escape) ++ "\""

/-- A literal without characters is written as one half of a surrogate pair. -/
def renderText : Option String → String
  | some s => quote s
  | none => "\"\\ud800\""

mutual

def render : Json → String
  | .null => "null"
  | .bool b => if b then "true" else "false"
  | .number n => n.render
  | .string s => renderText s
  | .array items => "[" ++ ",".intercalate (renderItems items) ++ "]"
  | .object fields => "\x7b" ++ ",".intercalate (renderFields fields) ++ "\x7d"

def renderItems : List Json → List String
  | [] => []
  | item :: items => item.render :: renderItems items

def renderFields : List (Option String × Json) → List String
  | [] => []
  | (key, value) :: fields => (renderText key ++ ":" ++ value.render) :: renderFields fields

end

def indentation (depth : Nat) : String := String.join (List.replicate depth "  ")

/-- The lines of a container, one item a line. -/
def block (depth : Nat) (opening closing : String) : List String → String
  | [] => opening ++ closing
  | items =>
    opening ++ "\n" ++ ",\n".intercalate (items.map (indentation (depth + 1) ++ ·)) ++ "\n" ++
      indentation depth ++ closing

mutual

def pretty (depth : Nat) : Json → String
  | .array items => block depth "[" "]" (prettyItems (depth + 1) items)
  | .object fields => block depth "\x7b" "\x7d" (prettyFields (depth + 1) fields)
  | .null => "null"
  | .bool b => if b then "true" else "false"
  | .number n => n.render
  | .string s => renderText s

def prettyItems (depth : Nat) : List Json → List String
  | [] => []
  | item :: items => item.pretty depth :: prettyItems depth items

def prettyFields (depth : Nat) : List (Option String × Json) → List String
  | [] => []
  | (key, value) :: fields =>
    (renderText key ++ ": " ++ value.pretty depth) :: prettyFields depth fields

end

end Json

end Bindable
