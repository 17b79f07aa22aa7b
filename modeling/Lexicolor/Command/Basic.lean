import Lexicolor.Command.Colors
import Lexicolor.Command.Extract
import Lexicolor.Command.Generate
import Lexicolor.Command.Inspect
import Lexicolor.Command.LogFilter

/-!
# Commands

The commands of the program, and the one that runs all steps in the order in
which they depend on each other.
-/

namespace Lexicolor

inductive Command where
  | updateAll
  | prefixMap
  | classifications
  | keywords
  | grammar
  | coverage
  | combine
  | clangd
  | settings
  | semanticColors
  | srgbTheme
  | noTokensTheme
  | dedupe
  | compareScopes
  | readme
  | tokens (file : String) (asJson : Bool)
  deriving DecidableEq

namespace Command

open Lexicolor.Action

/-- Every step in order, with what it is for. -/
def steps (layout : Layout) : List (String × Action Unit) := [
  ("Updating prefix map", extractPrefixes layout),
  ("Updating classifications", extractClassifications layout),
  ("Updating keywords", extractKeywords layout),
  ("Updating settings", generateSettings layout),
  ("Combining scopes", combineTables layout),
  ("Generating grammar", generateGrammar layout),
  ("Generating sRGB theme", generateSrgbTheme layout),
  ("Generating no-tokens theme", generateNoTokensTheme layout),
  ("Generating clangd config", generateConfig layout),
  ("Updating README", generateReadme layout),
  ("Checking grammar coverage", checkCoverage layout)]

def update (layout : Layout) : Action Unit := do
  (steps layout).forM fun (purpose, step) => within purpose step
  notice .allUpdated

def run (layout : Layout) : Command → Action Unit
  | updateAll => update layout
  | prefixMap => extractPrefixes layout
  | classifications => extractClassifications layout
  | keywords => extractKeywords layout
  | grammar => generateGrammar layout
  | coverage => checkCoverage layout
  | combine => combineTables layout
  | clangd => generateConfig layout
  | settings => generateSettings layout
  | semanticColors => generateSemanticColors layout
  | srgbTheme => generateSrgbTheme layout
  | noTokensTheme => generateNoTokensTheme layout
  | dedupe => dedupeTheme layout
  | compareScopes => compareWithPackage layout
  | readme => generateReadme layout
  | tokens file asJson => listTokens layout file asJson

end Command

/-- What the command line asks for. -/
structure Invocation where
  root : String := "."
  source : Option String := none
  verbose : Bool := false
  command : Option Command := none
  deriving DecidableEq

namespace Invocation

def layout (invocation : Invocation) : Layout := .ofRoot invocation.root invocation.source

/-- The work of the program; without a command it is that of all steps. -/
def action (invocation : Invocation) : Action Unit := do
  let layout := invocation.layout
  Action.notice (.paths layout.root layout.source)
  (invocation.command.getD .updateAll).run layout

/-- Runs the program on a workspace. -/
def perform (invocation : Invocation) (workspace : Workspace) : Except Failure Unit × Session :=
  invocation.action { workspace }

end Invocation

namespace Session

/-- The text that the session prints. -/
def output (wording : PatternError → String) (session : Session) : String :=
  String.join (session.reports.map (Report.text wording))

/-- The log lines that pass a filter. -/
def log (filter : LogFilter) (wording : Json.Fault → String) (session : Session) : List String :=
  (session.notices.filter filter.passes).flatMap (Notice.lines wording)

end Session

end Lexicolor
