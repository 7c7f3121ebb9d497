import Sequitur.Picture.Layout

/-!
# Sequitur.Picture.Paint

From rows of pieces to lines of text.  A painter turns styled text into the
string that is written; it sees sequents only, never the space around them.
-/

namespace Sequitur

/-- Turns styled text into the string that is written for it. -/
abbrev Painter := List Span → String

namespace Painter

/-- Writes the text and drops its styling. -/
def plain : Painter := Span.plainText

/-- Writes emphasized spans between brackets. -/
def bracketed : Painter
  | [] => ""
  | s :: rest => (if s.emphasis then "[" ++ s.text ++ "]" else s.text) ++ bracketed rest

end Painter

/-- A character a number of times; none when the number is negative. -/
def repeated (c : Char) (n : Int) : String := String.ofList (List.replicate n.toNat c)

namespace Piece

/-- Paints a piece. -/
def paint (painter : Painter) : Piece → String
  | blank n => repeated ' ' n
  | line n => repeated '─' n
  | label s => s
  | sequent text => painter text

/-- Paints the pieces of a row. -/
def paintRow (painter : Painter) : List Piece → String
  | [] => ""
  | p :: ps => p.paint painter ++ paintRow painter ps

end Piece

namespace Picture

/-- The rows of a box, top row first. -/
def rows (b : Box) : List (List Piece) := (List.range b.height).reverse.map fun n => b.row n

/-- How a derivation is drawn. -/
structure Options where
  style : Style
  painter : Painter := Painter.plain
  /-- Whether the conclusion of the next goal is emphasized. -/
  emphasis : Bool := false

section

variable {ν : Type} [DecidableEq ν] [ToString ν]

/-- The box of a derivation. -/
def box (opts : Options) (d : Derivation ν) : Box :=
  Box.ofDerivation opts.style (if opts.emphasis then d.nextGoal? else none) [] d

/-- The lines of a drawing, top line first, all of the same width. -/
def lines (opts : Options) (d : Derivation ν) : List String :=
  (rows (box opts d)).map (Piece.paintRow opts.painter)

end

/-- Drops the spaces at the end of a line. -/
def trimLine (line : String) : String :=
  String.ofList (line.toList.reverse.dropWhile (· = ' ')).reverse

/-- Lines, each ended by a newline. -/
def unlines : List String → String
  | [] => ""
  | line :: rest => line ++ "\n" ++ unlines rest

/-- A drawing as one string, without spaces at the ends of its lines. -/
def draw {ν : Type} [DecidableEq ν] [ToString ν] (opts : Options) (d : Derivation ν) : String :=
  unlines ((lines opts d).map trimLine)

end Picture

end Sequitur
