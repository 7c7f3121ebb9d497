import Sequitur.Text.Glyph

/-!
# Sequitur.Log.Record

What is logged: records with a level, a message and attributes.  Some
attributes may have been attached to the logger beforehand, and a group may
hold those of the record itself.
-/

namespace Sequitur

/-- How important a record is. -/
inductive LogLevel where
  | debug
  | info
  | warn
  | error
deriving DecidableEq

namespace LogLevel

/-- All levels, least important first; a level's number is its place here. -/
def all : List LogLevel := [debug, info, warn, error]

/-- The number of a level. -/
def number : LogLevel → Nat
  | debug => 0
  | info => 1
  | warn => 2
  | error => 3

/-- The name of a level. -/
def name : LogLevel → String
  | debug => "debug"
  | info => "info"
  | warn => "warn"
  | error => "error"

/-- The name of a level in a log. -/
def tag : LogLevel → String
  | debug => "DEBUG"
  | info => "INFO"
  | warn => "WARN"
  | error => "ERROR"

/-- The lower-case form of an ASCII letter; other characters are kept. -/
def folded (c : Char) : Char :=
  if 'A' ≤ c && c ≤ 'Z' then Char.ofNat (c.toNat + 32) else c

/-- The lower-case form of a glyph. -/
def foldedGlyph : Glyph → Glyph
  | .char c => .char (folded c)
  | .stray b => .stray b

/-- The level with a name, whatever the case of its letters.  Folding ASCII
is enough: no other character folds to a letter of these names. -/
def ofName? (t : Text) : Option LogLevel :=
  all.find? fun level => Text.ofString level.name = t.map foldedGlyph

end LogLevel

/-- The value of an attribute. -/
inductive LogValue where
  | text (t : Text)
  | number (n : Int)
  | flag (b : Bool)
deriving DecidableEq

/-- A named value. -/
structure LogAttr where
  key : Text
  value : LogValue
deriving DecidableEq

/-- An attribute whose value is a string. -/
def LogAttr.ofString (key s : String) : LogAttr := ⟨Text.ofString key, .text (Text.ofString s)⟩

/-- An attribute whose value is a number. -/
def LogAttr.ofNat (key : String) (n : Nat) : LogAttr := ⟨Text.ofString key, .number n⟩

/-- A log record. -/
structure LogRecord where
  level : LogLevel
  message : Text
  attrs : List LogAttr
  /-- Attributes attached to the logger beforehand. -/
  context : List LogAttr := []
  /-- The group that holds the record's own attributes; empty for none. -/
  group : Text := []
deriving DecidableEq

end Sequitur
