import Lexicolor.Grammar.Coverage
import Lexicolor.Json.Printer
import Lexicolor.Settings.SemanticColors
import Lexicolor.Theme.Comparison
import Lexicolor.Theme.Dedupe
import Lexicolor.Token.Basic

/-!
# Reports

What commands print as their result.
-/

namespace Lexicolor

inductive Report where
  | coverage (report : Grammar.Coverage)
  | comparison (report : Theme.Comparison)
  /-- What was merged, and the theme after it. -/
  | dedupe (order : Table String Nat) (theme : Json) (report : Theme.DedupeReport)
  /-- The colours of scopes, and the legend. -/
  | semanticColors (colors : Settings.SemanticColors) (legend : List String)
  /-- The tokens of a text, one to a line. -/
  | tokenList (text : String) (tokens : List Token)
  | tokenArray (tokens : List Token)

namespace Report

/-- The line on a token of a text; places count from one. -/
def tokenLine (text : String) (token : Token) : String :=
  s!"{token.line + 1}:{token.column + 1} " ++ token.textIn text ++ " " ++ token.scope ++ "\n"

/-- The text of a report; `wording` gives the reason why a text is no pattern. -/
def text (wording : PatternError → String) : Report → String
  | coverage report => report.text wording
  | comparison report => report.text
  | dedupe order theme report => report.text order theme
  | semanticColors colors legend => colors.text legend
  | tokenList text tokens => String.join (tokens.map (tokenLine text))
  | tokenArray tokens => Json.text (.array (tokens.map Token.toJson))

end Report

end Lexicolor
