import Lexicolor.Json.Printer
import Lexicolor.Text.Blank
import Lexicolor.Text.Lines
import Lexicolor.Text.Search

/-!
# The read-me file

A template has places for the recommended settings and the configuration of the
language server.
-/

namespace Lexicolor.Readme

open Text

/-- A place in a template. -/
def place (name : String) : List Char := ['\x7b'] ++ name.toList ++ ['\x7d']

def settingsPlace : List Char := place "RecommendedSettings"

def srgbPlace : List Char := place "RecommendedSettingsSRGB"

def configPlace : List Char := place "RecommendedClangD"

/-- The indented lines of the text of a value: for an object, all that stands inside its braces. -/
def settingsBody (settings : Json) : List Char :=
  let indented := (lines (Json.pretty Json.tableIndent 0 settings)).filter
    fun line => Json.tableIndent.isPrefixOf line
  join ['\n'] indented

/-- The template with its places filled one after the other; blanks around the configuration are
left out. -/
def fill (template settings srgb config : List Char) : List Char :=
  let filled := replaceAll settingsPlace settings template
  let filled := replaceAll srgbPlace srgb filled
  replaceAll configPlace (trim config) filled

end Lexicolor.Readme
