import Lexicolor.Command.Action
import Lexicolor.Settings.FromTheme
import Lexicolor.Theme.Variants

/-!
# Themes and settings

Commands that derive themes and settings from the theme.
-/

namespace Lexicolor.Command

open Lexicolor.Action

variable (layout : Layout)

def readTheme : Action Json := readJson .relaxed .json layout.theme

/-- Settings with their file. -/
def writeSettings (settings : Settings) : Action Unit := do
  write layout.settings settings.displayP3.text
  notice (.wrote (layout.shown layout.settings) [])
  write layout.srgbSettings settings.srgb.text
  notice (.wrote (layout.shown layout.srgbSettings) [])

def generateSettings : Action Unit := do
  let theme ← readTheme layout
  let template ← readJson .relaxed .json layout.settingsTemplate
  let settings ← within "Building settings from theme"
    (orFail .problem (Settings.ofTheme theme template layout.theme))
  writeSettings layout settings

def generateSemanticColors : Action Unit := do
  let scopes ← readJson .standard ScopeTable.decoder layout.scopes
  let examples ← readJson .relaxed (.list ColorExample.decoder) layout.colorExamples
  let template ← readJson .relaxed .json layout.settingsTemplate
  let colors := Settings.SemanticColors.ofExamples examples scopes
  report (.semanticColors colors scopes.legend)
  let settings ← within "Building semantic colour settings"
    (orFail .problem (Settings.ofSemanticColors colors template))
  writeSettings layout settings

def generateSrgbTheme : Action Unit := do
  let theme ← readTheme layout
  let (theme, count) ← within "Converting theme colours" (orFail .problem (Theme.srgb theme))
  write layout.srgbTheme theme.themeText
  notice (.wrote (layout.shown layout.srgbTheme) [("colors", toString count)])

/-- The token colours of the other theme; without them the theme has none. -/
def readOtherTokenColors : Action (List Json) := do
  let shown := layout.shown layout.darkModern
  match ← attempt (readJson .relaxed .json layout.darkModern) with
  | .ok theme =>
      let colors := Theme.tokenColors theme
      if colors.isEmpty then notice (.noTokenColors shown)
      return colors
  | .error failure =>
      notice (.notLoaded shown failure)
      return []

def generateNoTokensTheme : Action Unit := do
  let theme ← readTheme layout
  let colors ← readOtherTokenColors layout
  write layout.noTokensTheme (Theme.withTokenColors theme colors).themeText
  notice (.wrote (layout.shown layout.noTokensTheme) [("token_colors", toString colors.length)])

/-- The examples that order the token colours, if there are any. -/
def readOrdering : Action (List ColorExample) := do
  if ← pathExists layout.colorExamples then
    readJson .relaxed (.list ColorExample.decoder) layout.colorExamples
  else
    notice (.noExamples (layout.shown layout.colorExamples))
    return []

def dedupeTheme : Action Unit := do
  let theme ← readTheme layout
  let order := Theme.colorOrder (← readOrdering layout)
  let (theme, found) := Theme.dedupe order theme
  write layout.theme theme.themeText
  report (.dedupe order theme found)
  notice (.rewrote (layout.shown layout.theme)
    [("before", toString found.before), ("after", toString found.after)])

end Lexicolor.Command
