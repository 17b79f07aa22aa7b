import Lexicolor.Catalog.Prefix
import Lexicolor.Source.Scan

/-!
# The prefixes of a C++ source

A prefix is given by an initialiser of the form
`{ "m_", EClassification::EClassification_MemberVariable, true }`.
-/

namespace Lexicolor.Source

open Text

/-- The flag of a prefix, blanks before it. -/
def flag? (cs : List Char) : Option (Bool × List Char) :=
  match next? "true".toList cs with
  | some rest => some (true, rest)
  | none => (next? "false".toList cs).map (Prod.mk false)

/-- An initialiser after its opening brace. -/
def initialiser? (cs : List Char) : Option ((String × PrefixEntry) × List Char) := do
  let (name, cs) ← quoted? cs
  let cs ← next? [','] cs
  let (classification, cs) ← classification? (dropBlanks cs)
  let cs ← next? [','] cs
  let (isVariable, cs) ← flag? cs
  let rest ← next? ['\x7d'] cs
  return ((String.ofList name, ⟨String.ofList classification, isVariable⟩), rest)

theorem length_of_flag? {cs rest : List Char} {b : Bool} (h : flag? cs = some (b, rest)) :
    rest.length ≤ cs.length := by
  unfold flag? at h
  split at h
  · rename_i hnext
    cases h
    exact length_of_next? hnext
  · obtain ⟨_, hnext, heq⟩ := Option.map_eq_some_iff.mp h
    cases heq
    exact length_of_next? hnext

theorem length_of_initialiser? {cs rest : List Char} {entry : String × PrefixEntry}
    (h : initialiser? cs = some (entry, rest)) : rest.length ≤ cs.length := by
  simp only [initialiser?, bind, Option.bind_eq_some_iff, pure, Option.some.injEq] at h
  obtain ⟨⟨_, cs₁⟩, h₁, cs₂, h₂, ⟨_, cs₃⟩, h₃, cs₄, h₄, ⟨_, cs₅⟩, h₅, cs₆, h₆, heq⟩ := h
  cases heq
  have := length_of_quoted? h₁
  have := length_of_next? h₂
  have := length_dropBlanks_le cs₂
  have := length_of_classification? h₃
  have := length_of_next? h₄
  have := length_of_flag? h₅
  have := length_of_next? h₆
  simp only at *
  omega

/-- The initialisers of a text from left to right. -/
def initialisers : List Char → List (String × PrefixEntry)
  | [] => []
  | c :: cs =>
      if c = '\x7b' then
        match _h : initialiser? cs with
        | some (entry, rest) => entry :: initialisers rest
        | none => initialisers cs
      else initialisers cs
termination_by cs => cs.length
decreasing_by
  · have := length_of_initialiser? _h
    simp only [List.length_cons]; omega
  · simp
  · simp

/-- The prefixes that a source declares; of a repeated prefix the last entry counts. -/
def prefixes (source : String) : PrefixTable := .ofList (initialisers source.toList)

end Lexicolor.Source
