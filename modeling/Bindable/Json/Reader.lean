import Bindable.Json.Tree

/-! Reading JSON text. The grammar is the strict one: no comments, no trailing commas, no leading
zeros, no raw control characters in strings, only blanks after the document. Each reader returns
what it read together with the rest of the text. -/

namespace Bindable.Json

def isBlank (c : Char) : Bool := c = ' ' || c = '\t' || c = '\n' || c = '\r'

def skipBlanks (cs : List Char) : List Char := cs.dropWhile isBlank

def digitValue (c : Char) : Nat := c.toNat - '0'.toNat

def valueOfDigits (digits : List Nat) : Nat := digits.foldl (fun n d => 10 * n + d) 0

/-- A longest run of digits, at least one. -/
def digits? (cs : List Char) : Option (List Nat × List Char) :=
  match cs.span Char.isDigit with
  | ([], _) => none
  | (ds, rest) => some (ds.map digitValue, rest)

def whole? : List Char → Option (Nat × List Char)
  | '0' :: rest => some (0, rest)
  | cs => (digits? cs).map fun (ds, rest) => (valueOfDigits ds, rest)

def fraction? : List Char → Option (List Nat × List Char)
  | '.' :: rest => digits? rest
  | cs => some ([], cs)

def exponent? : List Char → Option (Option Int × List Char)
  | c :: rest =>
    if c = 'e' ∨ c = 'E' then
      let (negative, rest) :=
        match rest with
        | '+' :: r => (false, r)
        | '-' :: r => (true, r)
        | r => (false, r)
      (digits? rest).map fun (ds, rest) =>
        let n : Int := valueOfDigits ds
        (some (if negative then -n else n), rest)
    else some (none, c :: rest)
  | [] => some (none, [])

def numeral? (cs : List Char) : Option (Numeral × List Char) := do
  let (negative, cs) :=
    match cs with
    | '-' :: r => (true, r)
    | r => (false, r)
  let (whole, cs) ← whole? cs
  let (fraction, cs) ← fraction? cs
  let (exponent, cs) ← exponent? cs
  return ({ negative, whole, fraction, exponent }, cs)

def hexValue? (c : Char) : Option Nat :=
  if c.isDigit then some (c.toNat - '0'.toNat)
  else if 'a' ≤ c ∧ c ≤ 'f' then some (c.toNat - 'a'.toNat + 10)
  else if 'A' ≤ c ∧ c ≤ 'F' then some (c.toNat - 'A'.toNat + 10)
  else none

def unit? (a b c d : Char) : Option Nat := do
  return ((← hexValue? a) * 16 + (← hexValue? b)) * 256 + ((← hexValue? c) * 16 + (← hexValue? d))

def shortEscape? : Char → Option Char
  | '"' => some '"'
  | '\\' => some '\\'
  | '/' => some '/'
  | 'b' => some '\x08'
  | 'f' => some '\x0c'
  | 'n' => some '\n'
  | 'r' => some '\r'
  | 't' => some '\t'
  | _ => none

/-- What stands between the quotes of a string: characters, and code units given by number. -/
inductive Piece where
  | char (c : Char)
  | unit (n : Nat)
  deriving DecidableEq, Repr

/-- The pieces of a string up to its closing quote. -/
def pieces? : List Char → Option (List Piece × List Char)
  | '"' :: rest => some ([], rest)
  | '\\' :: 'u' :: a :: b :: c :: d :: rest => do
    let n ← unit? a b c d
    let (ps, rest) ← pieces? rest
    return (.unit n :: ps, rest)
  | '\\' :: c :: rest => do
    let e ← shortEscape? c
    let (ps, rest) ← pieces? rest
    return (.char e :: ps, rest)
  | c :: rest =>
    if c.toNat < 0x20 then none
    else do
      let (ps, rest) ← pieces? rest
      return (.char c :: ps, rest)
  | [] => none

def isHighUnit (n : Nat) : Bool := 0xD800 ≤ n && n < 0xDC00

def isLowUnit (n : Nat) : Bool := 0xDC00 ≤ n && n < 0xE000

/-- Joins surrogate pairs; a half without its other half has no characters. -/
def joinPieces : List Piece → Option (List Char)
  | [] => some []
  | .char c :: rest => (joinPieces rest).map (c :: ·)
  | .unit n :: .unit m :: rest =>
    if isHighUnit n then
      if isLowUnit m then
        (joinPieces rest).map (Char.ofNat (0x10000 + (n - 0xD800) * 0x400 + (m - 0xDC00)) :: ·)
      else none
    else if isLowUnit n then none
    else (joinPieces (.unit m :: rest)).map (Char.ofNat n :: ·)
  | .unit n :: rest =>
    if isHighUnit n || isLowUnit n then none
    else (joinPieces rest).map (Char.ofNat n :: ·)

/-- A string whose opening quote has been read. -/
def text? (cs : List Char) : Option (Option String × List Char) :=
  (pieces? cs).map fun (ps, rest) => ((joinPieces ps).map String.ofList, rest)

def word? (word : String) (cs : List Char) : Option (List Char) :=
  if word.toList.isPrefixOf cs then some (cs.drop word.length) else none

mutual

/-- One value, without the blanks around it. The first argument bounds the number of steps. -/
def value? : Nat → List Char → Option (Json × List Char)
  | 0, _ => none
  | _ + 1, [] => none
  | fuel + 1, c :: rest =>
    match c with
    | '"' => (text? rest).map fun (s, rest) => (.string s, rest)
    | '[' =>
      match skipBlanks rest with
      | ']' :: rest => some (.array [], rest)
      | rest => (items? fuel rest).map fun (items, rest) => (.array items, rest)
    | '\x7b' =>
      match skipBlanks rest with
      | '\x7d' :: rest => some (.object [], rest)
      | rest => (fields? fuel rest).map fun (fields, rest) => (.object fields, rest)
    | 'n' => (word? "ull" rest).map (.null, ·)
    | 't' => (word? "rue" rest).map (.bool true, ·)
    | 'f' => (word? "alse" rest).map (.bool false, ·)
    | _ => (numeral? (c :: rest)).map fun (n, rest) => (.number n, rest)

/-- The items of an array, one or more, up to its closing bracket. -/
def items? : Nat → List Char → Option (List Json × List Char)
  | 0, _ => none
  | fuel + 1, cs => do
    let (item, rest) ← value? fuel cs
    match skipBlanks rest with
    | ',' :: rest =>
      let (items, rest) ← items? fuel (skipBlanks rest)
      return (item :: items, rest)
    | ']' :: rest => return ([item], rest)
    | _ => none

/-- The fields of an object, one or more, up to its closing brace. -/
def fields? : Nat → List Char → Option (List (Option String × Json) × List Char)
  | fuel + 1, '"' :: cs => do
    let (key, rest) ← text? cs
    match skipBlanks rest with
    | ':' :: rest =>
      let (item, rest) ← value? fuel (skipBlanks rest)
      match skipBlanks rest with
      | ',' :: rest =>
        let (fields, rest) ← fields? fuel (skipBlanks rest)
        return ((key, item) :: fields, rest)
      | '\x7d' :: rest => return ([(key, item)], rest)
      | _ => none
    | _ => none
  | _, _ => none

end

/-- Every two steps take at least one character. -/
def ofChars? (cs : List Char) : Option Json :=
  match value? (2 * cs.length + 2) (skipBlanks cs) with
  | some (j, rest) => if skipBlanks rest = [] then some j else none
  | none => none

def parse? (text : String) : Option Json := ofChars? text.toList

end Bindable.Json
