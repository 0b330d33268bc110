/-! Tables sorted by key, one entry for a key. -/

namespace Bindable

/-- Entries sorted by key, by code points. -/
abbrev Table (α : Type) := List (String × α)

namespace Table

def insert (key : String) (value : α) : Table α → Table α
  | [] => [(key, value)]
  | (k, v) :: rest =>
    if key = k then (key, value) :: rest
    else if key < k then (key, value) :: (k, v) :: rest
    else (k, v) :: insert key value rest

def erase (key : String) (t : Table α) : Table α := t.filter fun p => p.1 ≠ key

def get? (t : Table α) (key : String) : Option α := (t.find? fun p => p.1 = key).map (·.2)

/-- The entries of a list, later ones in place of earlier ones. -/
def ofList (entries : List (String × α)) : Table α :=
  entries.foldl (fun t p => insert p.1 p.2 t) []

end Table

end Bindable
