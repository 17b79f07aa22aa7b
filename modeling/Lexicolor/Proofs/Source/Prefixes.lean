import Mathlib
import Lexicolor.Proofs.Grouping
import Lexicolor.Proofs.Source.Scan
import Lexicolor.Source.Prefixes

/-!
# Prefix tables as they are written

An initialiser is found where it stands, whatever blanks it has and whatever the
prefix is made of, also of the marks of other initialisers. A source that declares
prefixes one after the other gives back their table.
-/

namespace Lexicolor.Source

open Text

variable {cs rest other : List Char} {isVariable : Bool}

/-! ## Initialisers -/

def flagText (isVariable : Bool) : List Char :=
  if isVariable then "true".toList else "false".toList

/-- An initialiser as it is written: a prefix with its classification and its flag, and the blanks
between the parts. -/
structure Declaration where
  name : List Char
  noQuote : '"' ∉ name
  word : List Char
  isName : IsName word
  isVariable : Bool
  gap : Fin 6 → List Char
  blank : ∀ i, Blank (gap i)

namespace Declaration

/-- What is declared. -/
def entry (d : Declaration) : String × PrefixEntry :=
  (String.ofList d.name, ⟨String.ofList ("EClassification_".toList ++ d.word), d.isVariable⟩)

/-- The text behind the opening brace. -/
def inner (d : Declaration) : List Char :=
  d.gap 0 ++ '"' :: (d.name ++ '"' :: (d.gap 1 ++ ',' :: (d.gap 2 ++
    ("EClassification::EClassification_".toList ++ (d.word ++ (d.gap 3 ++ ',' :: (d.gap 4 ++
      (flagText d.isVariable ++ (d.gap 5 ++ ['\x7d'])))))))))

def text (d : Declaration) : List Char := '\x7b' :: d.inner

end Declaration

theorem flag?_append {blanks : List Char} (hblanks : Blank blanks) (isVariable : Bool)
    (rest : List Char) :
    flag? (blanks ++ (flagText isVariable ++ rest)) = some (isVariable, rest) := by
  cases isVariable with
  | true =>
      have hnext : next? "true".toList (blanks ++ ("true".toList ++ rest)) = some rest :=
        (congrArg (after? _) (dropBlanks_append hblanks (by decide) _)).trans (after?_append _ rest)
      rw [flagText, if_pos rfl, flag?, hnext]
  | false =>
      have hnone : next? "true".toList (blanks ++ ("false".toList ++ rest)) = none :=
        congrArg (after? _) (dropBlanks_append hblanks (by decide) _)
      have hnext : next? "false".toList (blanks ++ ("false".toList ++ rest)) = some rest :=
        (congrArg (after? _) (dropBlanks_append hblanks (by decide) _)).trans (after?_append _ rest)
      rw [flagText, if_neg Bool.false_ne_true, flag?, hnone]
      exact congrArg (Option.map _) hnext

/-- An initialiser is found where one is written. -/
theorem initialiser?_inner (d : Declaration) (rest : List Char) :
    initialiser? (d.inner ++ rest) = some (d.entry, rest) := by
  obtain ⟨name, hname, word, hword, isVariable, gap, hblank⟩ := d
  have hmark {c : Char} (hc : ¬isBlank c) (i : Fin 6) (more : List Char) :
      next? [c] (gap i ++ c :: more) = some more :=
    (next?_eq_some_iff hc).mpr ⟨gap i, hblank i, rfl⟩
  have hquoted (more : List Char) :
      quoted? (gap 0 ++ '"' :: (name ++ '"' :: more)) = some (name, more) :=
    quoted?_eq_some_iff.mpr ⟨hname, gap 0, hblank 0, rfl⟩
  have hclass (more : List Char) : classification? (dropBlanks (gap 2 ++
      ("EClassification::EClassification_".toList ++ (word ++ (gap 3 ++ ',' :: more))))) =
        some ("EClassification_".toList ++ word, gap 3 ++ ',' :: more) :=
    classification?_dropBlanks_eq_some_iff.mpr ⟨gap 2, _, hblank 2, rfl, word, hword,
      head_blank_append (hblank 3) (by decide) more, rfl, rfl⟩
  simp only [Declaration.inner, List.append_assoc, List.cons_append, List.nil_append, initialiser?,
    bind, Option.bind_eq_some_iff]
  exact ⟨_, hquoted _, _, hmark (by decide) 1 _, _, hclass _, _, hmark (by decide) 3 _, _,
    flag?_append (hblank 4) isVariable _, _, hmark (by decide) 5 rest, rfl⟩

/-! ## Sources -/

theorem initialisers_append (h : '\x7b' ∉ other) (rest : List Char) :
    initialisers (other ++ rest) = initialisers rest := by
  induction other with
  | nil => rfl
  | cons c other ih =>
      rw [List.mem_cons, not_or] at h
      rw [List.cons_append, initialisers, if_neg (Ne.symm h.1), ih h.2]

theorem initialisers_text (d : Declaration) (rest : List Char) :
    initialisers (d.text ++ rest) = d.entry :: initialisers rest := by
  rw [Declaration.text, List.cons_append, initialisers, if_pos rfl]
  split
  next heq =>
    cases (initialiser?_inner d rest).symm.trans heq
    rfl
  next heq => cases (initialiser?_inner d rest).symm.trans heq

/-- Declarations with texts before them, and a text behind them all. -/
def sourceText (parts : List (List Char × Declaration)) (last : List Char) : List Char :=
  parts.flatMap (fun part => part.1 ++ part.2.text) ++ last

theorem initialisers_sourceText {parts : List (List Char × Declaration)} {last : List Char}
    (hparts : ∀ part ∈ parts, '\x7b' ∉ part.1) (hlast : '\x7b' ∉ last) :
    initialisers (sourceText parts last) = parts.map fun part => part.2.entry := by
  induction parts with
  | nil =>
      have hrest := initialisers_append hlast []
      rwa [List.append_nil, initialisers] at hrest
  | cons part parts ih =>
      obtain ⟨hpart, hparts⟩ := List.forall_mem_cons.mp hparts
      have htext : sourceText (part :: parts) last =
          part.1 ++ (part.2.text ++ sourceText parts last) := by
        simp [sourceText]
      rw [htext, initialisers_append hpart, initialisers_text, ih hparts, List.map_cons]

/-- Every prefix has what its last declaration says. -/
theorem get?_prefixes_sourceText {parts : List (List Char × Declaration)} {last : List Char}
    (hparts : ∀ part ∈ parts, '\x7b' ∉ part.1) (hlast : '\x7b' ∉ last) (name : String) :
    (prefixes (String.ofList (sourceText parts last))).get? name =
      lookupEntry name (parts.map fun part => part.2.entry).reverse := by
  rw [prefixes, String.toList_ofList, initialisers_sourceText hparts hlast,
    SortedTable.get?_ofList]

/-- A prefix that is made of the marks of initialisers, declared twice. -/
theorem get?_prefixes_marks :
    (prefixes ("[] = \x7b\"\x7d,\x7b\",EClassification::EClassification_Type,true\x7d;\n" ++
      "\x7b \"\x7d,\x7b\" , EClassification::EClassification_Enum , false \x7d\n")).get?
        "\x7d,\x7b" = some ⟨"EClassification_Enum", false⟩ := by
  let close : Declaration :=
    ⟨"\x7d,\x7b".toList, by simp, "Type".toList, ⟨by simp, by simp [isIdentChar]⟩, true,
      fun _ => [], by simp [Blank]⟩
  let wide : Declaration :=
    ⟨"\x7d,\x7b".toList, by simp, "Enum".toList, ⟨by simp, by simp [isIdentChar]⟩, false,
      fun _ => [' '], by simp [Blank, isBlank]⟩
  have hget := @get?_prefixes_sourceText [("[] = ".toList, close), (";\n".toList, wide)] ['\n']
    (by simp) (by simp) "\x7d,\x7b"
  have htext : sourceText [("[] = ".toList, close), (";\n".toList, wide)] ['\n'] =
      ("[] = \x7b\"\x7d,\x7b\",EClassification::EClassification_Type,true\x7d;\n" ++
        "\x7b \"\x7d,\x7b\" , EClassification::EClassification_Enum , false \x7d\n").toList := by
    decide +kernel
  rw [htext, String.ofList_toList] at hget
  simpa [Declaration.entry, close, wide, lookupEntry] using hget

end Lexicolor.Source
