import Lexicolor.Json.Number
import Lexicolor.Table

/-!
# JSON values

Objects keep their members in order. Equality of values is decidable; it tells
member orders and number spellings apart.
-/

namespace Lexicolor

/-- A JSON value. The members of an object are in order of their first writing. -/
inductive Json where
  | null
  | bool (b : Bool)
  | number (n : Json.Number)
  | string (s : String)
  | array (items : List Json)
  | object (members : List (String × Json))
  deriving Inhabited

namespace Json

mutual

/-- Whether two values are equal, as a computation. -/
def same : Json → Json → Bool
  | .null, .null => true
  | .bool a, .bool b => a == b
  | .number m, .number n => m == n
  | .string s, .string t => s == t
  | .array xs, .array ys => sameItems xs ys
  | .object xs, .object ys => sameMembers xs ys
  | _, _ => false

def sameItems : List Json → List Json → Bool
  | [], [] => true
  | x :: xs, y :: ys => same x y && sameItems xs ys
  | _, _ => false

def sameMembers : List (String × Json) → List (String × Json) → Bool
  | [], [] => true
  | (k, x) :: xs, (l, y) :: ys => k == l && same x y && sameMembers xs ys
  | _, _ => false

end

mutual

theorem same_iff : ∀ x y : Json, same x y = true ↔ x = y
  | .null, y => by cases y <;> simp [same]
  | .bool a, y => by cases y <;> simp [same]
  | .number a, y => by cases y <;> simp [same]
  | .string a, y => by cases y <;> simp [same]
  | .array xs, y => by cases y <;> simp [same, sameItems_iff xs]
  | .object xs, y => by cases y <;> simp [same, sameMembers_iff xs]

theorem sameItems_iff : ∀ xs ys : List Json, sameItems xs ys = true ↔ xs = ys
  | [], ys => by cases ys <;> simp [sameItems]
  | x :: xs, ys => by cases ys <;> simp [sameItems, same_iff x, sameItems_iff xs]

theorem sameMembers_iff : ∀ xs ys : List (String × Json), sameMembers xs ys = true ↔ xs = ys
  | [], ys => by cases ys <;> simp [sameMembers]
  | (k, x) :: xs, ys => by
      cases ys <;> simp [sameMembers, same_iff x, sameMembers_iff xs, Prod.ext_iff]

end

instance : DecidableEq Json := fun x y => decidable_of_iff _ (same_iff x y)

/-- The member of an object under `key`. -/
def get? (key : String) : Json → Option Json
  | .object members => lookupEntry key members
  | _ => none

/-- An object with the member under `key` set; other values stay as they are. -/
def set (json : Json) (key : String) (value : Json) : Json :=
  match json with
  | .object members => .object (alterEntries key (fun _ => value) members)
  | other => other

def asString? : Json → Option String
  | .string s => some s
  | _ => none

def asArray? : Json → Option (List Json)
  | .array items => some items
  | _ => none

def asObject? : Json → Option (List (String × Json))
  | .object members => some members
  | _ => none

/-- An object of strings. -/
def ofStrings (entries : List (String × String)) : Json :=
  .object (entries.map fun (key, value) => (key, .string value))

/-- An array of strings. -/
def stringArray (items : List String) : Json := .array (items.map .string)

def ofNat (n : Nat) : Json := .number (.integer n)

end Json

end Lexicolor
