import Sequitur.Picture.Paint

/-!
# Sequitur.Picture.Theme

Colours for a terminal.  A coloured span is written as an escape sequence
with its codes, the text, and a reset; an emphasized span is written one
character at a time.  Which codes these are is up to the terminal: a palette
gives them, for a class and whether the span is emphasized.

The default palette has 256 colours.  There, an emphasized span is bold and
underlined on top of its own codes.
-/

namespace Sequitur

/-- When escape sequences are written. -/
inductive ColorMode where
  /-- Only when writing to a terminal. -/
  | auto
  | always
  | never
deriving DecidableEq

namespace ColorMode

/-- All modes; a mode's number is its place in this list. -/
def all : List ColorMode := [auto, always, never]

/-- The name of a mode. -/
def name : ColorMode → String
  | auto => "auto"
  | always => "always"
  | never => "never"

/-- The name of the mode with a number, or a description of the number. -/
def describe (n : Int) : String :=
  match nth? all n with
  | some mode => mode.name
  | none => "Mode(" ++ toString n ++ ")"

/-- The mode with a name. -/
def ofName? (t : Text) : Option ColorMode := all.find? fun mode => Text.ofString mode.name = t

/-- The message for a name that no mode has. -/
def unknownMessage (name : Text) : String :=
  "invalid color mode " ++ name.quoted ++ ", expected auto, always or never"

/-- Whether colours are written, given whether the output is a terminal. -/
def isColored (terminal : Bool) : ColorMode → Bool
  | auto => terminal
  | always => true
  | never => false

end ColorMode

/-! ## Codes -/

/-- The characters of codes: digits and semicolons. -/
def isCodeChar (c : Char) : Bool := ('0' ≤ c && c ≤ '9') || c == ';'

/-- The codes of an escape sequence. -/
structure Codes where
  text : String
  isCode : text.toList.all isCodeChar = true

/-- Bold and underlined on top of some codes. -/
def Codes.underlined (codes : Codes) : Codes where
  text := "1;4;" ++ codes.text ++ ";4"
  isCode := by
    rw [String.toList_append, String.toList_append, List.all_append, List.all_append, codes.isCode]
    decide

/-- The codes that a terminal understands. -/
structure Palette where
  /-- The codes of a class, or none for text that is written bare. -/
  codes? : SpanClass → Option Codes
  /-- The codes of an emphasized span of a class. -/
  emphasisCodes : SpanClass → Codes

namespace Palette

/-- The codes of the classes with 256 colours. -/
def codes256? : SpanClass → Option Codes
  | .plain => none
  | .paren => some ⟨"2", by decide⟩
  | .name => some ⟨"38;5;39", by decide⟩
  | .operator => some ⟨"38;5;214", by decide⟩
  | .constant => some ⟨"38;5;196", by decide⟩
  | .turnstile => some ⟨"1", by decide⟩
  | .comma => some ⟨"1", by decide⟩

/-- The default palette. -/
def default : Palette where
  codes? := codes256?
  emphasisCodes cls := ((codes256? cls).map Codes.underlined).getD ⟨"1;4;4", by decide⟩

end Palette

namespace Theme

/-- A text between an escape sequence and a reset. -/
def escaped (codes : Codes) (text : String) : String :=
  "\x1b[" ++ codes.text ++ "m" ++ text ++ "\x1b[0m"

/-- Characters, each with the same codes. -/
def eachEscaped (codes : Codes) : List Char → String
  | [] => ""
  | c :: rest => escaped codes c.toString ++ eachEscaped codes rest

/-- A span with its codes. -/
def paintSpan (palette : Palette) (s : Span) : String :=
  if s.emphasis then eachEscaped (palette.emphasisCodes s.cls) s.text.toList
  else
    match palette.codes? s.cls with
    | some codes => escaped codes s.text
    | none => s.text

/-- The painter that writes colours. -/
def colored (palette : Palette) : Painter
  | [] => ""
  | s :: rest => paintSpan palette s ++ colored palette rest

/-- The painter for a mode. -/
def painter (terminal : Bool) (mode : ColorMode) : Painter :=
  if mode.isColored terminal then colored .default else Painter.plain

end Theme

end Sequitur
