import Mathlib
import Lexicolor.Proofs.Grouping
import Lexicolor.Proofs.Source.Namings

/-!
# The keywords of all lines

A keyword has what its last example says or, without any, what its first
registration says. So the order of lines that are about different keywords does
not matter, nor does that of an example and a registration.
-/

namespace Lexicolor.Source

open Text

variable {keyword source : String} {line : List Char} {entry : KeywordEntry}

/-- The line names the keyword as an example. -/
def IsExampleLine (keyword : String) (line : List Char) : Prop :=
  ∃ word, Exemplifies line (keyword.toList, word)

/-- The line registers the keyword. -/
def IsKeywordLine (keyword : String) (line : List Char) : Prop :=
  ∃ word, Registers line (keyword.toList, word)

theorem map_fst_eq_some_iff {found : Option Naming} {name : List Char} :
    found.map Prod.fst = some name ↔ ∃ word, found = some (name, word) := by
  simp [Option.map_eq_some_iff]

theorem isExampleLine_iff :
    (exampleOf? line).map Prod.fst = some keyword.toList ↔ IsExampleLine keyword line := by
  simp only [map_fst_eq_some_iff, exampleOf?_eq_some_iff]
  exact Iff.rfl

theorem isKeywordLine_iff :
    (keywordOf? line).map Prod.fst = some keyword.toList ↔ IsKeywordLine keyword line := by
  simp only [map_fst_eq_some_iff, keywordOf?_eq_some_iff]
  exact Iff.rfl

instance : DecidablePred (IsExampleLine keyword) := fun _ => decidable_of_iff _ isExampleLine_iff

instance : DecidablePred (IsKeywordLine keyword) := fun _ => decidable_of_iff _ isKeywordLine_iff

/-- The lines of a source that name the keyword as an example. -/
def exampleLines (keyword source : String) : List (List Char) :=
  (lines source.toList).filter (IsExampleLine keyword)

/-- The lines of a source that register the keyword. -/
def keywordLines (keyword source : String) : List (List Char) :=
  (lines source.toList).filter (IsKeywordLine keyword)

theorem mem_exampleLines : line ∈ exampleLines keyword source ↔
    line ∈ lines source.toList ∧ IsExampleLine keyword line := by
  simp [exampleLines]

theorem mem_keywordLines : line ∈ keywordLines keyword source ↔
    line ∈ lines source.toList ∧ IsKeywordLine keyword line := by
  simp [keywordLines]

/-! ## Entries -/

/-- The first entry for a keyword comes from the first line about it. -/
theorem lookupEntry_namings {scan : List Char → Option Naming} {isExample : Bool}
    {ls : List (List Char)} :
    lookupEntry keyword ((ls.filterMap scan).map (entryOf isExample)) = some entry ↔
      entry.isExample = isExample ∧ ∃ line,
        ls.find? (fun line => (scan line).map Prod.fst = some keyword.toList) = some line ∧
        scan line = some (keyword.toList, entry.classification.toList) := by
  induction ls with
  | nil => simp [lookupEntry]
  | cons line ls ih =>
      cases hscan : scan line with
      | none => simpa [hscan] using ih
      | some naming =>
          obtain ⟨name, word⟩ := naming
          by_cases hname : name = keyword.toList
          · subst hname
            have hentry : (⟨String.ofList word, isExample⟩ : KeywordEntry) = entry ↔
                entry.isExample = isExample ∧ word = entry.classification.toList := by
              obtain ⟨classification, other⟩ := entry
              rw [KeywordEntry.mk.injEq, ← String.toList_inj, String.toList_ofList, and_comm,
                @eq_comm Bool]
            simpa [hscan, lookupEntry, entryOf] using hentry
          · have hne : String.ofList name ≠ keyword := fun heq =>
              hname (by rw [← heq, String.toList_ofList])
            simpa [hscan, lookupEntry, entryOf, hname, hne] using ih

/-- The last example for a keyword comes from the last line that names one. -/
theorem lookupEntry_examples :
    lookupEntry keyword (((lines source.toList).filterMap exampleOf?).map (entryOf true)).reverse =
      some entry ↔ entry.isExample = true ∧ ∃ line,
        (exampleLines keyword source).getLast? = some line ∧
        Exemplifies line (keyword.toList, entry.classification.toList) := by
  rw [← List.map_reverse, ← List.filterMap_reverse, lookupEntry_namings, exampleLines,
    ← List.head?_reverse, ← List.filter_reverse, List.head?_filter]
  simp only [exampleOf?_eq_some_iff, isExampleLine_iff]

theorem lookupEntry_registered :
    lookupEntry keyword (((lines source.toList).filterMap keywordOf?).map (entryOf false)) =
      some entry ↔ entry.isExample = false ∧ ∃ line,
        (keywordLines keyword source).head? = some line ∧
        Registers line (keyword.toList, entry.classification.toList) := by
  rw [lookupEntry_namings, keywordLines, List.head?_filter]
  simp only [keywordOf?_eq_some_iff, isKeywordLine_iff]

theorem lookupEntry_examples_eq_none_iff :
    lookupEntry keyword (((lines source.toList).filterMap exampleOf?).map (entryOf true)).reverse =
      none ↔ exampleLines keyword source = [] := by
  rw [Option.eq_none_iff_forall_ne_some]
  simp only [ne_eq, lookupEntry_examples, not_and, not_exists]
  constructor
  · intro h
    by_contra hne
    have hlast := List.getLast?_eq_some_getLast hne
    obtain ⟨word, hline⟩ := (mem_exampleLines.mp (List.getLast_mem hne)).2
    exact h ⟨String.ofList word, true⟩ rfl _ hlast (by rwa [String.toList_ofList])
  · intro hnil entry _ line hlast
    rw [hnil] at hlast
    cases hlast

/-! ## The table -/

/-- A keyword with an example has what the last example says, any other one what its first
registration says. -/
theorem get?_keywords_eq_some_iff : (keywords source).get? keyword = some entry ↔
    (entry.isExample = true ∧ ∃ line, (exampleLines keyword source).getLast? = some line ∧
      Exemplifies line (keyword.toList, entry.classification.toList)) ∨
    exampleLines keyword source = [] ∧
      entry.isExample = false ∧ ∃ line, (keywordLines keyword source).head? = some line ∧
        Registers line (keyword.toList, entry.classification.toList) := by
  rw [keywords, SortedTable.get?_foldl_setNew, SortedTable.get?_ofList, Option.or_eq_some_iff,
    lookupEntry_examples, lookupEntry_examples_eq_none_iff, lookupEntry_registered]

theorem mem_keys_keywords_iff : keyword ∈ (keywords source).keys ↔
    ∃ line ∈ lines source.toList, IsExampleLine keyword line ∨ IsKeywordLine keyword line := by
  simp only [SortedTable.mem_keys_iff, Option.isSome_iff_exists, get?_keywords_eq_some_iff]
  constructor
  · rintro ⟨_, ⟨-, line, hlast, -⟩ | ⟨-, -, line, hhead, -⟩⟩
    · obtain ⟨hmem, hline⟩ := mem_exampleLines.mp (List.mem_of_getLast? hlast)
      exact ⟨line, hmem, .inl hline⟩
    · obtain ⟨hmem, hline⟩ := mem_keywordLines.mp (List.mem_of_head? hhead)
      exact ⟨line, hmem, .inr hline⟩
  · rintro ⟨line, hmem, hline⟩
    by_cases hnil : exampleLines keyword source = []
    · have hnot : ¬IsExampleLine keyword line := fun h =>
        List.not_mem_nil (hnil ▸ mem_exampleLines.mpr ⟨hmem, h⟩)
      have hne := List.ne_nil_of_mem (mem_keywordLines.mpr ⟨hmem, hline.resolve_left hnot⟩)
      have hhead := List.head?_eq_some_head hne
      obtain ⟨word, hfirst⟩ := (mem_keywordLines.mp (List.head_mem hne)).2
      exact ⟨⟨String.ofList word, false⟩, .inr ⟨hnil, rfl, _, hhead, by rwa [String.toList_ofList]⟩⟩
    · have hlast := List.getLast?_eq_some_getLast hnil
      obtain ⟨word, hfirst⟩ := (mem_exampleLines.mp (List.getLast_mem hnil)).2
      exact ⟨⟨String.ofList word, true⟩, .inl ⟨rfl, _, hlast, by rwa [String.toList_ofList]⟩⟩

/-- Every line counts, and of the lines for one keyword the last example or else the first
registration. In what order lines for different keywords stand, or an example and a registration,
does not count. -/
theorem keywords_of_lines (source : String) :
    (∀ keyword, keyword ∈ (keywords source).keys ↔
      ∃ line ∈ lines source.toList, IsExampleLine keyword line ∨ IsKeywordLine keyword line) ∧
    (∀ keyword classification, (keywords source).get? keyword = some ⟨classification, true⟩ ↔
      ∃ line, (exampleLines keyword source).getLast? = some line ∧
        Exemplifies line (keyword.toList, classification.toList)) ∧
    (∀ keyword classification, (keywords source).get? keyword = some ⟨classification, false⟩ ↔
      exampleLines keyword source = [] ∧ ∃ line,
        (keywordLines keyword source).head? = some line ∧
        Registers line (keyword.toList, classification.toList)) ∧
    ∀ other, (∀ keyword, exampleLines keyword other = exampleLines keyword source ∧
      keywordLines keyword other = keywordLines keyword source) →
        keywords other = keywords source := by
  refine ⟨fun keyword => mem_keys_keywords_iff, fun keyword classification => ?_,
    fun keyword classification => ?_, fun other hlines => ?_⟩
  · simp [get?_keywords_eq_some_iff]
  · simp [get?_keywords_eq_some_iff]
  · refine SortedTable.ext_get? fun keyword => Option.ext fun entry => ?_
    rw [get?_keywords_eq_some_iff, get?_keywords_eq_some_iff, (hlines keyword).1,
      (hlines keyword).2]

/-- An example and a registration of the same word, in both orders. -/
theorem keywords_example_registration :
    keywords ("f_AddDefaultKeyword(\"CA\", EClassification::EClassification_Keyword);\n" ++
      "ignore(\"CA\", EClassification::EClassification_Type, 1);\n") =
    keywords ("ignore(\"CA\", EClassification::EClassification_Type, 1);\n" ++
      "f_AddDefaultKeyword(\"CA\", EClassification::EClassification_Keyword);\n") := by
  let named := "ignore(\"CA\", EClassification::EClassification_Type, 1);".toList
  let registered := "f_AddDefaultKeyword(\"CA\", EClassification::EClassification_Keyword);".toList
  have hnamed : keywordOf? named = none := by decide +kernel
  have hregistered : exampleOf? registered = none := by decide +kernel
  refine (keywords_of_lines _).2.2.2 _ fun keyword => ?_
  have hlines : lines (
      "f_AddDefaultKeyword(\"CA\", EClassification::EClassification_Keyword);\n" ++
      "ignore(\"CA\", EClassification::EClassification_Type, 1);\n").toList =
        [registered, named] := by decide +kernel
  have hlines' : lines (
      "ignore(\"CA\", EClassification::EClassification_Type, 1);\n" ++
      "f_AddDefaultKeyword(\"CA\", EClassification::EClassification_Keyword);\n").toList =
        [named, registered] := by decide +kernel
  rw [exampleLines, exampleLines, keywordLines, keywordLines, hlines, hlines']
  simp [List.filter_cons, ← isExampleLine_iff, ← isKeywordLine_iff, hnamed, hregistered]

end Lexicolor.Source
