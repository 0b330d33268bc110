/-! Cutting texts at fixed words. -/

namespace Bindable.Text

/-- Drops a word once, if the text starts with it. -/
def dropLeading (word s : List Char) : List Char := (word.isPrefixOf? s).getD s

/-- Drops a word as often as the text starts with it. -/
def dropLeadings (word s : List Char) : List Char :=
  match word.isPrefixOf? s with
  | some rest => if rest.length < s.length then dropLeadings word rest else rest
  | none => s
termination_by s.length

/-- What follows the last occurrence of a character, or everything. -/
def afterLast (c : Char) (s : List Char) : List Char := (s.reverse.takeWhile (· != c)).reverse

/-- Replaces the occurrences of a word from left to right; replacements are not looked at again. -/
def replaceAll (word replacement s : List Char) : List Char :=
  match s with
  | [] => []
  | c :: cs =>
    match word.isPrefixOf? (c :: cs) with
    | some rest =>
      if rest.length ≤ cs.length then replacement ++ replaceAll word replacement rest
      else c :: replaceAll word replacement cs
    | none => c :: replaceAll word replacement cs
termination_by s.length

end Bindable.Text
