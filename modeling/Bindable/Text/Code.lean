/-! Looking for identifiers in the body of an accessor, outside comments and literals. -/

namespace Bindable.Text

/-- The rest of a string or character literal after its opening quote: up to the closing quote, no
line break on the way except after a backslash. -/
def afterLiteral? (quote : Char) : List Char → Option (List Char)
  | [] => none
  | [c] => if c = quote then some [] else none
  | c :: d :: rest =>
    if c = quote then some (d :: rest)
    else if c = '\\' then afterLiteral? quote rest
    else if c = '\n' then none
    else afterLiteral? quote (d :: rest)

theorem length_afterLiteral?_lt {quote : Char} {s rest : List Char}
    (h : afterLiteral? quote s = some rest) : rest.length < s.length := by
  fun_induction afterLiteral? quote s with
  | case1 => simp at h
  | case2 => simp_all
  | case3 => simp at h
  | case4 => simp_all
  | case5 _ _ _ ih => have := ih h; simp; omega
  | case6 => simp at h
  | case7 _ _ _ _ _ _ ih => have := ih h; simp at this ⊢; omega

/-- The rest of a verbatim string after its opening quote. A doubled quote belongs to the string;
if no lone quote follows, the string ends at the first quote of its last doubled one. -/
def afterVerbatim? : List Char → Option (List Char)
  | [] => none
  | [c] => if c = '"' then some [] else none
  | c :: d :: rest =>
    if c = '"' then
      if d = '"' then
        match afterVerbatim? rest with
        | some end_ => some end_
        | none => some (d :: rest)
      else some (d :: rest)
    else afterVerbatim? (d :: rest)

theorem length_afterVerbatim?_lt {s rest : List Char} (h : afterVerbatim? s = some rest) :
    rest.length < s.length := by
  fun_induction afterVerbatim? s generalizing rest with
  | case1 => simp at h
  | case2 => simp_all
  | case3 => simp at h
  | case4 _ _ he ih => have := ih he; simp_all; omega
  | case5 => simp_all
  | case6 => simp_all
  | case7 _ _ _ _ ih => have := ih h; simp at this ⊢; omega

/-- The rest of a block comment after its opening. -/
def afterBlock? : List Char → Option (List Char)
  | [] | [_] => none
  | c :: d :: rest => if c = '*' ∧ d = '/' then some rest else afterBlock? (d :: rest)

theorem length_afterBlock?_le {s rest : List Char} (h : afterBlock? s = some rest) :
    rest.length ≤ s.length := by
  fun_induction afterBlock? s with
  | case1 => simp at h
  | case2 => simp at h
  | case3 => simp_all; omega
  | case4 _ _ _ _ ih => have := ih h; simp at this ⊢; omega

/-- The rest after a comment or literal that stands at the front, if one does. -/
def afterToken? : List Char → Option (List Char)
  | '/' :: '/' :: rest => some (rest.dropWhile (· != '\n'))
  | '/' :: '*' :: rest => afterBlock? rest
  | '@' :: '"' :: rest => afterVerbatim? rest
  | '"' :: rest => afterLiteral? '"' rest
  | '\'' :: rest => afterLiteral? '\'' rest
  | _ => none

theorem length_afterToken?_lt {s rest : List Char} (h : afterToken? s = some rest) :
    rest.length < s.length := by
  fun_cases afterToken? s with
  | case1 cs =>
    have := (List.dropWhile_suffix (· != '\n') (l := cs)).length_le
    simp_all [afterToken?]
    omega
  | case2 => have := length_afterBlock?_le h; simp; omega
  | case3 => have := length_afterVerbatim?_lt h; simp; omega
  | case4 => have := length_afterLiteral?_lt h; simp; omega
  | case5 => have := length_afterLiteral?_lt h; simp; omega
  | case6 => simp_all [afterToken?]

/-- One blank in place of each comment and each literal. -/
def stripChars (s : List Char) : List Char :=
  match s with
  | [] => []
  | c :: cs =>
    match _h : afterToken? (c :: cs) with
    | some rest => ' ' :: stripChars rest
    | none => c :: stripChars cs
termination_by s.length
decreasing_by
  · exact length_afterToken?_lt _h
  · simp

def strip (body : String) : String := String.ofList (stripChars body.toList)

def isAsciiStart (c : Char) : Bool := c.isAlpha || c = '_'

def isAsciiPart (c : Char) : Bool := c.isAlphanum || c = '_'

/-- The longest ASCII words of a text, from left to right. -/
def asciiWords (s : List Char) : List (List Char) :=
  match s with
  | [] => []
  | c :: cs =>
    if isAsciiStart c then
      (c :: cs.takeWhile isAsciiPart) :: asciiWords (cs.dropWhile isAsciiPart)
    else asciiWords cs
termination_by s.length
decreasing_by
  · have := (List.dropWhile_suffix isAsciiPart (l := cs)).length_le
    simp
    omega
  · simp

/-- The body has the identifier as a whole word outside comments and literals. An escaping sign
before a word does not count. -/
def references (body identifier : String) : Bool :=
  (asciiWords (stripChars body.toList)).contains identifier.toList

end Bindable.Text
