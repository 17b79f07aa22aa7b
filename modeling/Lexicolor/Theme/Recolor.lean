import Lexicolor.Json.Value

/-!
# Converting the colours of a value

A colour is a text that starts with a hash and stands directly under one of the
given keys, at any depth.
-/

namespace Lexicolor.Theme

variable {ε : Type}

def isColorText (text : String) : Bool := text.toList.head? = some '#'

/-- The text of a member that is a colour. -/
def colorText? (keys : List String) (key : String) : Json → Option String
  | .string text => if key ∈ keys ∧ isColorText text then some text else none
  | _ => none

mutual

/-- The value with its colours converted, and their number. The first colour in the order of the
value that cannot be converted decides the error. -/
def recolor (keys : List String) (convert : String → Except ε String) :
    Json → Except ε (Json × Nat)
  | .array items => do
      let (items, count) ← recolorItems keys convert items
      return (.array items, count)
  | .object members => do
      let (members, count) ← recolorMembers keys convert members
      return (.object members, count)
  | other => .ok (other, 0)

def recolorItems (keys : List String) (convert : String → Except ε String) :
    List Json → Except ε (List Json × Nat)
  | [] => .ok ([], 0)
  | item :: items => do
      let (item, first) ← recolor keys convert item
      let (items, rest) ← recolorItems keys convert items
      return (item :: items, first + rest)

def recolorMembers (keys : List String) (convert : String → Except ε String) :
    List (String × Json) → Except ε (List (String × Json) × Nat)
  | [] => .ok ([], 0)
  | (key, value) :: members => do
      -- a colour is converted as a whole, any other value is searched
      let (value, first) ← match colorText? keys key value with
        | some text => (fun new => (.string new, 1)) <$> convert text
        | none => recolor keys convert value
      let (members, rest) ← recolorMembers keys convert members
      return ((key, value) :: members, first + rest)

end

end Lexicolor.Theme
