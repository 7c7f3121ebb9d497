import Sequitur.Settings.Basic
import Sequitur.Yaml.Quoting

/-!
# Sequitur.Settings.Printer

Settings written as a YAML document: a mapping of two mappings, one for the
style and one for the log, indented by four columns.
-/

namespace Sequitur

namespace Settings

/-- An entry of one of the two mappings. -/
def entry (key : String) (value : List Char) : List Char :=
  "    ".toList ++ key.toList ++ [':', ' '] ++ Yaml.ended value

/-- An entry whose value is a boolean. -/
def flagEntry (key : String) (b : Bool) : List Char :=
  entry key (if b then "true".toList else "false".toList)

/-- An entry whose value is a text. -/
def textEntry (key : String) (t : Text) : List Char := entry key (Yaml.scalarText 4 8 t)

/-- The characters of the document of settings. -/
def document (s : Settings) : List Char :=
  "style:\n".toList ++ flagEntry "unicode" s.unicode ++ flagEntry "negation" s.negation ++
    textEntry "highlight" (Text.ofString s.highlight.name) ++ flagEntry "emphasis" s.emphasis ++
    "log:\n".toList ++ textEntry "level" (Text.ofString s.level.name) ++ textEntry "file" s.file ++
    flagEntry "json" s.json

/-- Settings as a YAML document. -/
def print (s : Settings) : String := String.ofList s.document

end Settings

end Sequitur
