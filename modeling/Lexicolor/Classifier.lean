import Lexicolor.Catalog.ScopeTable

/-!
# Classifying identifiers

An identifier that is a keyword has the keyword's scope. Any other has the
scope of its longest prefix that fits: a capital must follow the prefix, and a
variable prefix allows one concept character before the capital. A classifier
holds the prefixes by length, so that it looks up one head of the identifier
for each length, from the longest down.
-/

namespace Lexicolor

namespace Identifier

/-- Capitals are the letters `A` to `Z`, the digits, and the capitals of Latin-1 with the
characters between them. -/
def isCapital (c : Char) : Bool :=
  c.isUpper || c.isDigit || ('\u00c0' ≤ c && c ≤ '\u00df')

/-- The characters that tell a variable's concept. -/
def isConcept (c : Char) : Bool := c ∈ ['b', 'i', 'n', 'p', 'f', 'r', 'o']

def startsCapital (cs : List Char) : Bool := cs.head?.any isCapital

/-- A capital follows the head of the identifier. -/
def fitsPlain (head name : List Char) : Bool := (Text.after? head name).any startsCapital

/-- A capital follows the head of the identifier, directly or after a concept character. -/
def fitsVariable (head name : List Char) : Bool :=
  (Text.after? head name).any fun rest => match rest with
    | [] => false
    | c :: rest => isCapital c || (isConcept c && startsCapital rest)

def endsWith (tail name : List Char) : Bool := tail.reverse.isPrefixOf name.reverse

variable {head name tail : List Char}

theorem fitsPlain_iff :
    fitsPlain head name ↔ ∃ c rest, isCapital c ∧ name = head ++ c :: rest := by
  simp only [fitsPlain, Option.any_eq_true, Text.after?_eq_some_iff]
  constructor
  · rintro ⟨_ | ⟨c, rest⟩, rfl, h⟩
    · contradiction
    · exact ⟨c, rest, h, rfl⟩
  · rintro ⟨c, rest, h, rfl⟩
    exact ⟨c :: rest, rfl, h⟩

theorem fitsVariable_iff : fitsVariable head name ↔
    fitsPlain head name ∨
      ∃ k c rest, isConcept k ∧ isCapital c ∧ name = head ++ k :: c :: rest := by
  simp only [fitsPlain_iff, fitsVariable, Option.any_eq_true, Text.after?_eq_some_iff]
  constructor
  · rintro ⟨_ | ⟨k, rest⟩, rfl, h⟩
    · contradiction
    · rcases Bool.or_eq_true_iff.mp h with h | h
      · exact .inl ⟨k, rest, h, rfl⟩
      · obtain ⟨hk, h⟩ := Bool.and_eq_true_iff.mp h
        cases rest with
        | nil => contradiction
        | cons c rest => exact .inr ⟨k, c, rest, hk, h, rfl⟩
  · rintro (⟨c, rest, h, rfl⟩ | ⟨k, c, rest, hk, h, rfl⟩)
    · exact ⟨c :: rest, rfl, by simp [h]⟩
    · exact ⟨k :: c :: rest, rfl, by simp [hk, startsCapital, h]⟩

theorem endsWith_iff : endsWith tail name ↔ tail <:+ name := by
  rw [endsWith, List.isPrefixOf_iff_prefix, List.reverse_prefix]

end Identifier

open Identifier

/-- Keywords and prefixes prepared for looking up identifiers. -/
structure Classifier where
  keywords : Table String String
  /-- The plain prefixes of each length, with their scopes. -/
  plainByLength : List (Table String String)
  /-- The variable prefixes of each length, with their scopes. -/
  variableByLength : List (Table String String)

namespace Classifier

/-- Prefixes of up to this length have a place even if there are none. -/
def usualLength : Nat := 6

/-- The length of the longest prefix, or the usual one if that is more. -/
def longestLength (table : ScopeTable) : Nat :=
  (table.prefixes.keys.map String.length).foldr max usualLength

/-- Puts a prefix among those of its length. -/
def file (byLength : List (Table String String)) (name scope : String) :
    List (Table String String) :=
  byLength.modify name.length fun bucket => bucket.set name scope

def addPrefix (c : Classifier) (name : String) (entry : PrefixScope) : Classifier :=
  if entry.isVariable then
    { c with variableByLength := file c.variableByLength name entry.scope }
  else { c with plainByLength := file c.plainByLength name entry.scope }

/-- The classifier for a table. Keywords of empty scope are left out. -/
def ofTable (table : ScopeTable) : Classifier :=
  let buckets := List.replicate (longestLength table + 1) .empty
  table.prefixes.entries.foldl (fun c (name, entry) => c.addPrefix name entry)
    ⟨table.keywords.filter fun _ scope => scope ≠ "", buckets, buckets⟩

def maxLength (c : Classifier) : Nat := c.plainByLength.length - 1

/-- The scope of an identifier with a plain prefix. The prefix `E` stands for enumerations unless
the identifier has an underscore, and the prefix `CF` for types if the identifier ends in `Ref`. -/
def scopeOfPlain (head name : List Char) (scope : String) : String :=
  if head = ['E'] ∧ '_' ∉ name then Scope.enumeration
  else if head = ['C', 'F'] ∧ endsWith ['R', 'e', 'f'] name then Scope.type
  else scope

/-- The scope of an identifier through its plain prefix of `length` characters. -/
def plainScope? (c : Classifier) (name : List Char) (length : Nat) : Option String := do
  let head := name.take length
  let scope ← (← c.plainByLength[length]?).get? (String.ofList head)
  guard (fitsPlain head name)
  return scopeOfPlain head name scope

/-- The scope of an identifier through its variable prefix of `length` characters. -/
def variableScope? (c : Classifier) (name : List Char) (length : Nat) : Option String := do
  let head := name.take length
  let scope ← (← c.variableByLength[length]?).get? (String.ofList head)
  guard (fitsVariable head name)
  return scope

def scopeAt? (c : Classifier) (name : List Char) (length : Nat) : Option String :=
  (c.plainScope? name length).or (c.variableScope? name length)

/-- The scope of an identifier through its longest prefix of at most `length` characters. -/
def scopeUpTo? (c : Classifier) (name : List Char) : (length : Nat) → Option String
  | 0 => c.scopeAt? name 0
  | length + 1 => (c.scopeAt? name (length + 1)).or (c.scopeUpTo? name length)

/-- The scope of an identifier. -/
def classify (c : Classifier) (name : String) : Option String :=
  (c.keywords.get? name).or (c.scopeUpTo? name.toList (min name.length c.maxLength))

end Classifier

/-- The scope of an identifier. -/
def ScopeTable.classify (table : ScopeTable) (name : String) : Option String :=
  (Classifier.ofTable table).classify name

end Lexicolor
