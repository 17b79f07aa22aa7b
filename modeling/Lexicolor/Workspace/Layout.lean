import Lexicolor.Workspace.Path

/-!
# The layout of a workspace

Where the files are that the commands read and write: most under one root, the
C++ sources in a directory of their own.
-/

namespace Lexicolor

structure Layout where
  root : String
  source : String
  deriving DecidableEq

namespace Layout

def join (base other : String) : String := String.ofList (Path.join base.toList other.toList)

/-- The layout with a root; the sources are by default next to it. -/
def ofRoot (root : String) (source : Option String) : Layout :=
  let sibling := join (join (join root "..") "Highlighterr") "HighlighterrCxx"
  ⟨root, source.getD sibling⟩

variable (layout : Layout)

def inRoot (name : String) : String := join layout.root name

def cppSource : String := join layout.source "HighlighterrCxx.cpp"

def cppHeader : String := join layout.source "HighlighterrCxx.h"

def prefixMap : String := layout.inRoot "prefixmap.json"

def keywords : String := layout.inRoot "keywords.json"

def classifications : String := layout.inRoot "classifications.json"

def scopes : String := layout.inRoot "scopes.json"

def grammar : String := join (layout.inRoot "syntaxes") "malterlib.tmLanguage.json"

def theme : String := join (layout.inRoot "themes") "malterlib.json"

def srgbTheme : String := join (layout.inRoot "themes") "malterlibSRGB.json"

def noTokensTheme : String := join (layout.inRoot "themes") "malterlibNoTokens.json"

/-- The theme that lends its token colours. -/
def darkModern : String := layout.inRoot "darkModern.json"

def colorExamples : String := layout.inRoot "colorexamples.json"

def settingsTemplate : String := layout.inRoot "settingsTemplate.json"

def settings : String := layout.inRoot "settings.json"

def srgbSettings : String := layout.inRoot "settingsSRGB.json"

def config : String := layout.inRoot ".clangd"

def configTemplate : String := layout.inRoot ".clangd-template"

/-- The section of the package manifest on scopes. -/
def manifestSection : String := layout.inRoot "semanticScopesForPackage.json"

def package : String := layout.inRoot "package.json"

def readmeTemplate : String := layout.inRoot "README-template.md"

def readme : String := layout.inRoot "README.md"

/-- All files that commands read or write. -/
def files : List String :=
  [layout.cppSource, layout.cppHeader, layout.prefixMap, layout.keywords, layout.classifications,
    layout.scopes, layout.grammar, layout.theme, layout.srgbTheme, layout.noTokensTheme,
    layout.darkModern, layout.colorExamples, layout.settingsTemplate, layout.settings,
    layout.srgbSettings, layout.config, layout.configTemplate, layout.manifestSection,
    layout.package, layout.readmeTemplate, layout.readme]

/-- A path as notices show it: as seen from the root, where it lies under the root. -/
def shown (path : String) : String :=
  String.ofList (Path.relativeTo layout.root.toList path.toList)

end Layout

end Lexicolor
