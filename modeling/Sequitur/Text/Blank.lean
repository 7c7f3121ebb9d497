import Sequitur.Text.Glyph

/-!
# Sequitur.Text.Blank

White space between the words of a line.  The blanks are the characters
with the Unicode property White_Space.  A formula has a narrower notion of
its own (`Sequitur.Formula.Token`): inside one only four characters may
separate tokens.
-/

namespace Sequitur

/-- The characters with the Unicode property White_Space. -/
def isBlankChar (c : Char) : Bool :=
  let n := c.toNat
  (0x09 ≤ n && n ≤ 0x0D) || n == 0x20 || n == 0x85 || n == 0xA0 || n == 0x1680 ||
    (0x2000 ≤ n && n ≤ 0x200A) || n == 0x2028 || n == 0x2029 || n == 0x202F ||
    n == 0x205F || n == 0x3000

/-- A glyph is blank when it is a white-space character; a stray byte never is. -/
def Glyph.isBlank : Glyph → Bool
  | .char c => isBlankChar c
  | .stray _ => false

namespace Text

/-- Drops the blanks in front. -/
def trimLeft (t : Text) : Text := t.dropWhile Glyph.isBlank

/-- Drops the blanks at the end. -/
def trimRight (t : Text) : Text := (t.reverse.dropWhile Glyph.isBlank).reverse

/-- Drops the blanks at both ends. -/
def trim (t : Text) : Text := trimRight (trimLeft t)

/-- Whether a text holds blanks only. -/
def isBlank (t : Text) : Bool := t.all Glyph.isBlank

/-- Cuts a text before its first blank. -/
def firstWord (t : Text) : Text × Text :=
  (t.takeWhile (!·.isBlank), t.dropWhile (!·.isBlank))

/-- The maximal runs of glyphs that are no separators. -/
def fields (sep : Glyph → Bool) : Text → List Text
  | [] => []
  | g :: rest =>
    if sep g then fields sep rest
    else
      match rest, fields sep rest with
      | h :: _, part :: parts => if sep h then [g] :: part :: parts else (g :: part) :: parts
      | _, parts => [g] :: parts

end Text

end Sequitur
