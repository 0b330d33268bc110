import Bindable.Json.Tree
import Bindable.Numeric.Reading

/-! Reading values out of documents. A record is an object with known keys, none of them repeated,
or the array of its fields in order, from which the last ones may be missing. Unknown keys are
passed over. Nothing is converted: a text is no number and a number with a point is no integer. -/

namespace Bindable.Json

def string? : Json → Option String
  | .string s => s
  | _ => none

def bool? : Json → Option Bool
  | .bool b => some b
  | _ => none

def int? : Json → Option Int
  | .number n => n.toInt?
  | _ => none

def list? (decode : Json → Option α) : Json → Option (List α)
  | .array items => items.mapM decode
  | _ => none

def nullable? (decode : Json → Option α) : Json → Option (Option α)
  | .null => some none
  | j => (decode j).map some

/-- The value under a key that may appear once. -/
def field? (fields : List (Option String × Json)) (key : String) : Option (Option Json) :=
  match valuesOf key fields with
  | [] => some none
  | [value] => some (some value)
  | _ => none

/-- The fields of a record, in the order of the names. -/
def record? (names : List String) : Json → Option (List (Option Json))
  | .object fields =>
    if fields.all fun p => p.1.isSome then names.mapM (field? fields) else none
  | .array items =>
    if items.length ≤ names.length then
      some (items.map some ++ List.replicate (names.length - items.length) none)
    else none
  | _ => none

def required (decode : Json → Option α) (field : Option Json) : Option α := field.bind decode

def withDefault (decode : Json → Option α) (value : α) : Option Json → Option α
  | none => some value
  | some j => decode j

/-- One of some known words, bare or as the key of an object whose only value is null. A value that
was stored before it was read may have an empty object in place of null. -/
def tag? (stored : Bool) (known : String → Option α) : Json → Option α
  | .string (some s) => known s
  | .object [(some s, .null)] => known s
  | .object [(some s, .object [])] => if stored then known s else none
  | _ => none

mutual

/-- A value that can be stored unread: at most the given number of containers inside each other,
every number in range, every text made of characters. -/
def storable (room : Nat) : Json → Bool
  | .number n => n.units?.isSome
  | .string s => s.isSome
  | .array items =>
    match room with
    | 0 => false
    | room + 1 => storableItems room items
  | .object fields =>
    match room with
    | 0 => false
    | room + 1 => storableFields room fields
  | _ => true

def storableItems (room : Nat) : List Json → Bool
  | [] => true
  | item :: items => storable room item && storableItems room items

def storableFields (room : Nat) : List (Option String × Json) → Bool
  | [] => true
  | (key, value) :: fields => key.isSome && storable room value && storableFields room fields

end

/-- At most this many containers inside each other, where values are not passed over. -/
def depthLimit : Nat := 127

end Bindable.Json
