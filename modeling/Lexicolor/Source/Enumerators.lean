import Lexicolor.Catalog.Classification
import Lexicolor.Problem
import Lexicolor.Source.Scan

/-!
# The classifications of a C++ header

The enumerators of the first `enum class EClassification` with a body, which
ends at the first closing brace.
-/

namespace Lexicolor.Source

open Text

/-- The text after one blank or more. -/
def blanks? (cs : List Char) : Option (List Char) := (some? isBlank cs).map Prod.snd

/-- The text after an underlying type, if there is one, and after the blanks around it. -/
def afterType (cs : List Char) : List Char :=
  match next? [':'] cs with
  | none => dropBlanks cs
  | some rest => match some? (fun c => isIdentChar c || c == ':') (dropBlanks rest) with
    | some (_, rest) => dropBlanks rest
    | none => dropBlanks cs

/-- The body of the enumeration that starts here. -/
def enumBody? (cs : List Char) : Option (List Char) := do
  let cs ← after? "enum".toList cs
  let cs ← blanks? cs
  let cs ← after? "class".toList cs
  let cs ← blanks? cs
  let cs ← after? "EClassification".toList cs
  let cs ← after? ['\x7b'] (afterType cs)
  let (body, cs) ← some? (· ≠ '\x7d') cs
  let _ ← after? ['\x7d'] cs
  return body

/-- The text after the comment that starts here. -/
def comment? (cs : List Char) : Option (List Char) :=
  match after? ['/', '*'] cs with
  | some rest => (cut? ['*', '/'] rest).map Prod.snd
  | none => (after? ['/', '/'] cs).map fun rest => rest.dropWhile (· ≠ '\n')

theorem length_comment?_lt {cs rest : List Char} (h : comment? cs = some rest) :
    rest.length < cs.length := by
  unfold comment? at h
  split at h
  · rename_i start hstart
    obtain ⟨⟨before, _⟩, hcut, rfl⟩ := Option.map_eq_some_iff.mp h
    have := congrArg List.length (eq_append_of_cut? hcut)
    rw [after?_eq_some_iff] at hstart
    simp only [hstart, List.length_append, List.length_cons, List.length_nil] at this ⊢
    omega
  · obtain ⟨start, hstart, rfl⟩ := Option.map_eq_some_iff.mp h
    rw [after?_eq_some_iff] at hstart
    have := (List.dropWhile_sublist (l := start) (· ≠ '\n')).length_le
    simp only [hstart, List.length_append, List.length_cons, List.length_nil]
    omega

/-- The text without its comments. A comment that is not closed is none. -/
def withoutComments : List Char → List Char
  | [] => []
  | c :: cs => match _h : comment? (c :: cs) with
    | some rest => withoutComments rest
    | none => c :: withoutComments cs
termination_by cs => cs.length
decreasing_by
  · exact length_comment?_lt _h
  · simp

/-- The names of the enumerators of a body, in order. -/
def enumeratorNames (body : List Char) : List (List Char) :=
  ((splitOn ',' (withoutComments body)).map fun entry => trim (before '=' entry)).filter
    fun name => !name.isEmpty

/-- The enumerators of a header, in order. -/
def enumerators (header : String) : Except Problem (List String) :=
  match first? enumBody? header.toList with
  | some body => .ok ((enumeratorNames body).map String.ofList)
  | none => .error .missingEnum

/-- The classifications of a header with their scopes. -/
def classifications (header : String) : Except Problem ClassificationTable :=
  ClassificationTable.ofNames <$> enumerators header

end Lexicolor.Source
