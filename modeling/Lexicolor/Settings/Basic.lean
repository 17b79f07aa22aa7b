import Lexicolor.Color.Gamut
import Lexicolor.Theme.Recolor

/-!
# Recommended settings

Settings extend a template. They come in two forms, one for displays with a
wide gamut and one in sRGB.
-/

namespace Lexicolor

/-- Settings in Display P3 and in sRGB. -/
structure Settings where
  displayP3 : Json
  srgb : Json

namespace Settings

/-- A template, which must be an object. -/
def templateObject (template : Json) : Except Problem Json :=
  if template.asObject?.isSome then .ok template
  else .error (.notAnObject "settingsTemplate.json")

/-- A template with its foregrounds in sRGB. -/
def srgbTemplate (template : Json) : Except Problem Json :=
  Prod.fst <$> Theme.recolor ["foreground"] Color.srgbText template

end Settings

end Lexicolor
