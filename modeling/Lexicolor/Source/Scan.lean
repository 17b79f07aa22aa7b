import Lexicolor.Text.Blank
import Lexicolor.Text.Search

/-!
# Scanning C++ texts

Parts of initialisers and calls. A scan looks at the start of a text and gives
what it found with the text after it.
-/

namespace Lexicolor.Source

open Text

/-- The characters at the start of a text that satisfy `p`, at least one. -/
def some? (p : Char → Bool) (cs : List Char) : Option (List Char × List Char) :=
  if (cs.takeWhile p).isEmpty then none else some (cs.takeWhile p, cs.dropWhile p)

/-- A name of ASCII letters, digits and underscores. -/
def name? (cs : List Char) : Option (List Char × List Char) := some? isIdentChar cs

/-- The text after `word`, with or without blanks before it. -/
def next? (word : List Char) (cs : List Char) : Option (List Char) := after? word (dropBlanks cs)

/-- A text in quotes, blanks before it. -/
def quoted? (cs : List Char) : Option (List Char × List Char) := do
  let cs ← next? ['"'] cs
  let rest ← after? ['"'] (cs.dropWhile (· ≠ '"'))
  return (cs.takeWhile (· ≠ '"'), rest)

/-- A classification with its enumeration. -/
def classification? (cs : List Char) : Option (List Char × List Char) := do
  let cs ← after? "EClassification::EClassification_".toList cs
  let (name, rest) ← name? cs
  return ("EClassification_".toList ++ name, rest)

/-- What a scan finds at the first place where it finds anything. -/
def first? {α : Type} (scan : List Char → Option α) : List Char → Option α
  | [] => scan []
  | c :: cs => match scan (c :: cs) with
    | some found => some found
    | none => first? scan cs

theorem length_of_after? {word cs rest : List Char} (h : after? word cs = some rest) :
    rest.length ≤ cs.length := by
  rw [after?_eq_some_iff] at h
  simp [h]

theorem length_of_next? {word cs rest : List Char} (h : next? word cs = some rest) :
    rest.length ≤ cs.length :=
  Nat.le_trans (length_of_after? h) (length_dropBlanks_le cs)

theorem length_of_some? {p : Char → Bool} {cs found rest : List Char}
    (h : some? p cs = some (found, rest)) : rest.length ≤ cs.length := by
  simp only [some?, Option.ite_none_left_eq_some, Option.some.injEq, Prod.mk.injEq] at h
  exact h.2.2 ▸ (List.dropWhile_sublist p).length_le

theorem length_of_quoted? {cs found rest : List Char}
    (h : quoted? cs = some (found, rest)) : rest.length ≤ cs.length := by
  simp only [quoted?, bind, Option.bind_eq_some_iff, pure, Option.some.injEq,
    Prod.mk.injEq] at h
  obtain ⟨start, hstart, _, hrest, _, rfl⟩ := h
  exact Nat.le_trans (length_of_after? hrest)
    (Nat.le_trans (List.dropWhile_sublist _).length_le (length_of_next? hstart))

theorem length_of_classification? {cs found rest : List Char}
    (h : classification? cs = some (found, rest)) : rest.length ≤ cs.length := by
  simp only [classification?, bind, Option.bind_eq_some_iff, pure, Option.some.injEq] at h
  obtain ⟨start, hstart, ⟨_, _⟩, hname, heq⟩ := h
  cases heq
  exact Nat.le_trans (length_of_some? hname) (length_of_after? hstart)

end Lexicolor.Source
