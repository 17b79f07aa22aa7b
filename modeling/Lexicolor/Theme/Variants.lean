import Lexicolor.Color.Gamut
import Lexicolor.Theme.Recolor

/-!
# Variants of the theme

The theme in sRGB, and the theme's workbench colours with the token colours of
another theme.
-/

namespace Lexicolor.Theme

/-- The theme with its foregrounds and backgrounds in sRGB, and the number of colours. -/
def srgb (theme : Json) : Except Problem (Json × Nat) := do
  let (theme, count) ← recolor ["foreground", "background"] Color.srgbText theme
  let theme := ((theme.set "name" (.string "Malterlib (sRGB)")).set "type" (.string "dark")).set
    "highlightingColorSpace" (.string "srgb")
  return (theme, count)

/-- The theme without its token colours; it has the given ones, if there are any. -/
def withTokenColors (theme : Json) (tokenColors : List Json) : Json :=
  let field (key : String) := (key, (theme.get? key).getD .null)
  .object ([
    field "$schema",
    ("name", .string "Malterlib (Dark Modern Syntax)"),
    field "type",
    field "semanticHighlighting",
    field "highlightingColorSpace",
    field "colorSpace",
    ("colors", (theme.get? "colors").getD (.object []))] ++
    if tokenColors.isEmpty then [] else [("tokenColors", .array tokenColors)])

end Lexicolor.Theme
