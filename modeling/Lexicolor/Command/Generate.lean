import Lexicolor.Clangd.Config
import Lexicolor.Clangd.Selectors
import Lexicolor.Command.Action
import Lexicolor.Grammar.Generate
import Lexicolor.Readme

/-!
# Generating files from tables

Commands that write the scope table, the grammar, the configuration of the
language server and the read-me file.
-/

namespace Lexicolor.Command

open Lexicolor.Action

variable (layout : Layout)

def combineTables : Action Unit := do
  let keywords ← readTable KeywordTable.decoder .empty layout.keywords
  let prefixes ← readTable PrefixTable.decoder .empty layout.prefixMap
  let classifications ← readTable ClassificationTable.decoder .empty layout.classifications
  let table := ScopeTable.combine keywords prefixes classifications
  write layout.scopes table.toJson.text
  notice (.wrote (layout.shown layout.scopes)
    [("keywords", toString table.keywords.size), ("prefixes", toString table.prefixes.size),
      ("scopes", toString table.legend.length)])

def generateGrammar : Action Unit := do
  let prefixes ← readJson .standard PrefixTable.decoder layout.prefixMap
  let keywords ← readJson .standard KeywordTable.decoder layout.keywords
  let grammar := Grammar.generate prefixes keywords
  write layout.grammar grammar.toJson.text
  notice (.wrote (layout.shown layout.grammar)
    [("patterns", toString grammar.patterns.length)])

/-- The template of the configuration, if there is one. -/
def readConfigTemplate : Action (Option String) := do
  if ← pathExists layout.configTemplate then some <$> readText layout.configTemplate
  else
    notice (.noConfigTemplate (layout.shown layout.configTemplate))
    return none

def generateConfig : Action Unit := do
  let table ← readJson .standard ScopeTable.decoder layout.scopes
  let rules ← within "Building clangd rules" (orFail .problem (Clangd.rules table))
  let template ← readConfigTemplate layout
  write layout.config (Clangd.config rules template)
  notice (.wrote (layout.shown layout.config)
    [("rules", toString rules.length), ("templated", toString template.isSome)])
  write layout.manifestSection (Clangd.manifest rules).text
  notice (.wrote (layout.shown layout.manifestSection) [])

/-- The configuration of the language server; without a file, its section stays empty. -/
def readConfig : Action String := do
  if ← pathExists layout.config then readText layout.config
  else
    notice (.noConfig (layout.shown layout.config))
    return ""

def generateReadme : Action Unit := do
  let template ← readText layout.readmeTemplate
  let settings ← readJson .standard .json layout.settings
  let srgbSettings ← readJson .standard .json layout.srgbSettings
  let config ← readConfig layout
  let text := Readme.fill template.toList (Readme.settingsBody settings)
    (Readme.settingsBody srgbSettings) config.toList
  write layout.readme (String.ofList text)
  notice (.wrote (layout.shown layout.readme) [])

end Lexicolor.Command
