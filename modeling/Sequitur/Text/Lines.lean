import Sequitur.Text.Glyph

/-!
# Sequitur.Text.Lines

Input read line by line.  A line ends at a newline, and one carriage
return before the newline belongs to the line end.  The last line may lack
its newline.  A line that does not fit the reading buffer ends the reading:
what follows it is never seen.
-/

namespace Sequitur

/-- The result of reading lines: the lines in order, and whether the
reading stopped at a line that is too long. -/
structure Lines where
  lines : List Text
  overlong : Bool
deriving DecidableEq

namespace Lines

/-- The number of bytes before the line end at which a line is too long. -/
def limit : Nat := 65536

/-- What is reported for a line that is too long. -/
def overlongMessage : String := "bufio.Scanner: token too long"

/-- Drops one carriage return at the end of a line, kept in reverse. -/
def dropReturn : List Glyph → List Glyph
  | .char '\r' :: rest => rest
  | line => line

/-- Reads lines.  `line` is the current line, last glyph first, and `used`
the number of its bytes. -/
def readFrom (line : List Glyph) (used : Nat) : Text → Lines
  | [] => { lines := if line.isEmpty then [] else [(dropReturn line).reverse], overlong := false }
  | g :: rest =>
    if g = .char '\n' then
      let after := readFrom [] 0 rest
      { after with lines := (dropReturn line).reverse :: after.lines }
    else if limit ≤ used + g.size then { lines := [], overlong := true }
    else readFrom (g :: line) (used + g.size) rest

/-- The lines of a text. -/
def read (t : Text) : Lines := readFrom [] 0 t

end Lines

end Sequitur
