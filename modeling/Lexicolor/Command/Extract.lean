import Lexicolor.Command.Action
import Lexicolor.Source.Enumerators
import Lexicolor.Source.Keywords
import Lexicolor.Source.Prefixes

/-!
# Extracting tables

Commands that write the tables found in the C++ sources.
-/

namespace Lexicolor.Command

open Lexicolor.Action

variable (layout : Layout)

def extractPrefixes : Action Unit := do
  let source ← readSource layout.cppSource
  let table := Source.prefixes source
  write layout.prefixMap table.toJson.text
  notice (.wrote (layout.shown layout.prefixMap) [("prefixes", toString table.size)])

def extractClassifications : Action Unit := do
  let header ← readSource layout.cppHeader
  let table ← within ("Parsing " ++ layout.cppHeader)
    (orFail .problem (Source.classifications header))
  write layout.classifications table.toJson.text
  notice (.wrote (layout.shown layout.classifications)
    [("classifications", toString table.size)])

def extractKeywords : Action Unit := do
  let source ← readSource layout.cppSource
  let table := Source.keywords source
  let examples := table.values.countP fun entry => entry.isExample
  write layout.keywords table.toJson.text
  notice (.wrote (layout.shown layout.keywords)
    [("keywords", toString table.size), ("examples", toString examples)])

end Lexicolor.Command
