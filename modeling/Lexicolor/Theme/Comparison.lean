import Lexicolor.Theme.Rule

/-!
# The scopes of the theme and of the package

The package manifest maps tokens to scopes; the theme should colour all of
them, but for some that are left to the editor.
-/

namespace Lexicolor.Theme

/-- The scopes that the theme need not colour. -/
def exceptionScopes : List String := [
  "malterlib.character",
  "malterlib.comment.background",
  "malterlib.comment.foreground",
  "malterlib.comment.url",
  "malterlib.documentation.comment.foreground",
  "malterlib.documentation.comment.foreground.keyword",
  "malterlib.number",
  "malterlib.operator",
  "malterlib.plain.text",
  "malterlib.preprocessor.operator",
  "malterlib.string",
  "malterlib.typedef",
  "malterlib.unknown"]

/-- A scope of the highlighter. -/
def isOwnScope (scope : String) : Bool :=
  "malterlib.".toList.isPrefixOf scope.toList

/-- The highlighter's scopes that the theme colours. -/
def themeScopes (theme : Json) : List String :=
  ascending (((tokenColors theme).flatMap ruleScopes).filter isOwnScope)

/-- The arrays of scopes in a section of the manifest. -/
def sectionScopes (languages : Json) : List Json :=
  let members := ((languages.get? "scopes").bind Json.asObject?).getD []
  members.flatMap fun (_, scopes) => scopes.asArray?.getD []

/-- The highlighter's scopes that the package uses. -/
def packageScopes (package : Json) : List String :=
  let languages := (((package.get? "contributes").bind (Json.get? "semanticTokenScopes")).bind
    Json.asArray?).getD []
  ascending (((languages.flatMap sectionScopes).filterMap Json.asString?).filter isOwnScope)

/-- Scopes in ascending order. -/
structure Comparison where
  theme : List String
  package : List String
  missing : List String

def compare (theme package : Json) : Comparison :=
  let themeScopes := themeScopes theme
  let packageScopes := packageScopes package
  { theme := themeScopes
    package := packageScopes
    missing := packageScopes.filter fun scope =>
      scope ∉ themeScopes && scope ∉ exceptionScopes }

namespace Comparison

/-- The report as text. -/
def text (report : Comparison) : String :=
  "=== SCOPE COMPARISON ===\n" ++
  s!"Total scopes in theme: {report.theme.length}\n" ++
  s!"Total scopes in package.json: {report.package.length}\n" ++
  s!"Exception scopes (ignored): {exceptionScopes.length}\n\n" ++
  (if report.missing.isEmpty then "All package.json scopes are present in theme\n"
  else
    "=== SCOPES IN PACKAGE.JSON BUT MISSING IN THEME ===\n" ++
    String.join (report.missing.map fun scope => "  " ++ scope ++ "\n") ++
    s!"\nTotal missing: {report.missing.length}\n") ++
  "\n"

end Comparison

end Lexicolor.Theme
