import Lexicolor.Clangd.Rule
import Lexicolor.Unicode.Lowercase

/-!
# Selectors of the package manifest

The manifest maps the modifiers of a token back to its scope.
-/

namespace Lexicolor.Clangd

/-- The selector of the tokens that carry the modifiers. -/
def selector (modifiers : List String) : String :=
  "*." ++ ".".intercalate (modifiers.map Unicode.lowerString)

/-- The selectors of the rules, each with its scopes in order of first use. -/
def selectors (rules : List Rule) : Table String (List String) :=
  rules.foldl
    (fun found rule =>
      let scope := Scope.dotted rule.scope
      found.alter (selector rule.modifiers) fun old => match old with
        | none => [scope]
        | some scopes => if scope ∈ scopes then scopes else scopes ++ [scope])
    .empty

/-- The manifest's section on semantic tokens. -/
def manifest (rules : List Rule) : Json :=
  .object [("semanticTokenScopes", .array [.object [
    ("language", .string "cpp"),
    ("scopes", .object ((selectors rules).entries.map fun (selector, scopes) =>
      (selector, .stringArray scopes)))]])]

end Lexicolor.Clangd
