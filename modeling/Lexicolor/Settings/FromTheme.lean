import Lexicolor.Settings.Basic

/-!
# Settings from a theme

The token colours of a theme become text mate rules of the settings.
-/

namespace Lexicolor.Settings

/-- The token colours of a theme, which must be there. -/
def requiredTokenColors (theme : Json) (path : String) : Except Problem (List Json) :=
  match theme.asObject? with
  | none => .error (.notAnObject path)
  | some _ => match (theme.get? "tokenColors").bind Json.asArray? with
    | some (rule :: rules) => .ok (rule :: rules)
    | _ => .error (.missingTokenColors path)

/-- An entry of the token colours with its foreground in sRGB. -/
def srgbRule (rule : Json) : Except Problem Json :=
  match rule.get? "settings" with
  | none => .ok rule
  | some settings => match (settings.get? "foreground").bind Json.asString? with
    | none => .ok rule
    | some text =>
        if Theme.isColorText text then do
          let converted ← Color.srgbText text
          return rule.set "settings" (settings.set "foreground" (.string converted))
        else .ok rule

def withRules (template : Json) (rules : List Json) : Json :=
  template.set "editor.tokenColorCustomizations" (.object [("textMateRules", .array rules)])

/-- The settings that carry the token colours of a theme read from `path`. -/
def ofTheme (theme template : Json) (path : String) : Except Problem Settings := do
  let rules ← requiredTokenColors theme path
  let template ← templateObject template
  let srgbRules ← rules.mapM srgbRule
  let converted ← srgbTemplate template
  let srgb := converted.set "workbench.highlightingColorSpace" (.string "srgb")
  return ⟨withRules template rules, withRules srgb srgbRules⟩

end Lexicolor.Settings
