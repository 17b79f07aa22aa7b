import Lexicolor.Catalog.Classification
import Lexicolor.Catalog.Keyword
import Lexicolor.Grammar.Basic
import Lexicolor.Pattern.Progress
import Lexicolor.Pattern.Reader

/-!
# Coverage of the keywords by a grammar

The first pattern that matches a keyword as a whole decides its scope. A keyword
is covered if that scope is there; it should be the scope of its
classification.
-/

namespace Lexicolor.Grammar

/-- A covered keyword with another scope than its classification has. -/
structure Mismatch where
  keyword : String
  classification : String
  got : String
  expected : String
  deriving DecidableEq

structure Coverage where
  total : Nat
  covered : Nat
  /-- The keywords that are not covered, by classification. -/
  missed : Table String (List String)
  mismatches : List Mismatch
  /-- The texts that are no patterns, and those in a syntax that is not read. -/
  invalid : List (String × PatternError)

/-- The pattern for a whole keyword. -/
def wholeWord (regex : String) : Except PatternError Pattern :=
  -- no group is added, so an alternative at either end is bound on one side only
  Pattern.read ('^' :: regex.toList ++ ['$'])

/-- The patterns of a grammar with their scopes. -/
def matchers (grammar : Grammar) : List (Pattern × Option String) :=
  grammar.patterns.filterMap fun pattern => do
    let regex ← pattern.regex
    match wholeWord regex with
    | .ok p => some (p, pattern.scope?)
    | .error _ => none

/-- The texts of a grammar that are no patterns. -/
def invalidPatterns (grammar : Grammar) : List (String × PatternError) :=
  grammar.patterns.filterMap fun pattern => do
    let regex ← pattern.regex
    match wholeWord regex with
    | .ok _ => none
    | .error e => some (regex, e)

/-- The scope that the first matching pattern gives a keyword. -/
def scopeOf? (matchers : List (Pattern × Option String)) (keyword : String) : Option String :=
  ((matchers.find? fun m => m.1.isIn keyword.toList).map Prod.snd).join

namespace Coverage

/-- The report after a look at one more keyword. The first pattern that takes the keyword decides;
without a scope from it the keyword is missed. -/
def check (matchers : List (Pattern × Option String)) (classifications : ClassificationTable)
    (report : Coverage) (keyword : String) (entry : KeywordEntry) : Coverage :=
  if keyword = "" then report
  else match scopeOf? matchers keyword with
    | none =>
        let missed := report.missed.alter entry.classification fun old => old.getD [] ++ [keyword]
        { report with missed }
    | some got =>
        let report := { report with covered := report.covered + 1 }
        match classifications.get? entry.classification with
        | none => report
        | some expected =>
            if got = expected then report
            else
              let mismatch := ⟨keyword, entry.classification, got, expected⟩
              { report with mismatches := report.mismatches ++ [mismatch] }

end Coverage

/-- Checks a grammar against the keywords, one after the other. The report tells of the patterns
that `Pattern.read` knows how to read. A text with a class of characters by property (`\p` or `\P`)
or with one of the flags `x`, `u` and `R` is not among them: it counts as invalid, though such texts
are patterns elsewhere. And no pattern is invalid for its size, only for its levels. -/
def coverage (keywords : KeywordTable) (grammar : Grammar)
    (classifications : ClassificationTable) : Coverage :=
  let matchers := matchers grammar
  keywords.entries.foldl
    (fun report (keyword, entry) => report.check matchers classifications keyword entry)
    { total := keywords.size
      covered := 0
      missed := .empty
      mismatches := []
      invalid := invalidPatterns grammar }

namespace Coverage

def missedCount (report : Coverage) : Nat := report.total - report.covered

def isClean (report : Coverage) : Bool := report.missed.isEmpty && report.mismatches.isEmpty

/-- A group is shown up to this number of entries. -/
def sampleSize : Nat := 20

/-- The lines on the missed keywords of a classification. -/
def groupText (classification : String) (words : List String) : String :=
  let more := if sampleSize < words.length then " ..." else ""
  s!"{classification} ({words.length}):\n  " ++ ", ".intercalate (words.take sampleSize) ++ more ++
    "\n\n"

def mismatchText (m : Mismatch) : String :=
  "  " ++ m.keyword ++ ": expected " ++ m.expected ++ ", got " ++ m.got ++ "\n"

/-- The report as text; `wording` gives the reason why a text is no pattern. -/
def text (wording : PatternError → String) (report : Coverage) : String :=
  String.join (report.invalid.map fun (regex, e) =>
    "Failed to compile pattern '" ++ regex ++ "': " ++ wording e ++ "\n") ++
  s!"Total keywords: {report.total}\nMatched keywords: {report.covered}\n" ++
  s!"Unmatched keywords: {report.missedCount}\n\n" ++
  String.join (report.missed.entries.map fun (classification, words) =>
    groupText classification words) ++
  if report.mismatches.isEmpty then ""
  else
    "\nScope mismatches:\n" ++
      String.join ((report.mismatches.take sampleSize).map mismatchText)

end Coverage

end Lexicolor.Grammar
