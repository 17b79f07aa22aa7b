import Lexicolor.Command.Action

/-!
# Looking at the workspace

Commands that print a report and write no file.
-/

namespace Lexicolor.Command

open Lexicolor.Action

variable (layout : Layout)

def checkCoverage : Action Unit := do
  let keywords ← readJson .standard KeywordTable.decoder layout.keywords
  let grammar ← readJson .standard Grammar.decoder layout.grammar
  let classifications ← readTable ClassificationTable.decoder .empty layout.classifications
  let found := Grammar.coverage keywords grammar classifications
  found.invalid.forM fun (pattern, _) => notice (.invalidPattern pattern)
  report (.coverage found)
  if !found.isClean then notice (.notCovered found.missedCount found.mismatches.length)

def compareWithPackage : Action Unit := do
  let theme ← readJson .relaxed .json layout.theme
  let package ← readJson .standard .json layout.package
  report (.comparison (Theme.compare theme package))

def listTokens (file : String) (asJson : Bool) : Action Unit := do
  let scopes ← readJson .standard ScopeTable.decoder layout.scopes
  let text ← readSource file
  let tokens := Token.ofText scopes text
  notice (.tokensFound tokens.length file)
  report (if asJson then .tokenArray tokens else .tokenList text tokens)

end Lexicolor.Command
