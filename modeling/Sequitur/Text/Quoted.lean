import Sequitur.Text.Printable

/-!
# Sequitur.Text.Quoted

Texts shown between double quotes in messages.  Printable characters stand
for themselves, the quote and the backslash are preceded by a backslash,
and everything else is written as an escape: a letter for the common
control characters, else two hexadecimal digits for a byte, four or eight
for a code point.  A stray byte is written as a byte, so a quoted text
tells exactly which text it quotes.
-/

namespace Sequitur

/-- The lower-case hexadecimal digit of a number below sixteen. -/
def hexDigit (n : Nat) : Char := Nat.digitChar (n % 16)

/-- The last `width` hexadecimal digits of a number. -/
def hexDigits : Nat → Nat → List Char
  | 0, _ => []
  | width + 1, n => hexDigits width (n / 16) ++ [hexDigit n]

namespace Quoted

/-- The letter that stands for a control character after a backslash. -/
def letter? (c : Char) : Option Char :=
  match c.toNat with
  | 0x07 => some 'a'
  | 0x08 => some 'b'
  | 0x09 => some 't'
  | 0x0A => some 'n'
  | 0x0B => some 'v'
  | 0x0C => some 'f'
  | 0x0D => some 'r'
  | _ => none

/-- A character inside quotes. -/
def char (c : Char) : List Char :=
  if c = '"' || c = '\\' then ['\\', c]
  else if isPrintable c then [c]
  else
    match letter? c with
    | some l => ['\\', l]
    | none =>
      let n := c.toNat
      if n < 0x20 || n = 0x7F then '\\' :: 'x' :: hexDigits 2 n
      else if n < 0x10000 then '\\' :: 'u' :: hexDigits 4 n
      else '\\' :: 'U' :: hexDigits 8 n

/-- A glyph inside quotes. -/
def glyph : Glyph → List Char
  | .char c => char c
  | .stray b => '\\' :: 'x' :: hexDigits 2 b.toNat

end Quoted

/-- A text between double quotes. -/
def Text.quoted (t : Text) : String :=
  String.ofList ('"' :: t.flatMap Quoted.glyph ++ ['"'])

/-- A string between double quotes. -/
def quoted (s : String) : String := (Text.ofString s).quoted

end Sequitur
