/-!
# Sequitur.Text.Glyph

Texts as they arrive from outside.  Input is a sequence of bytes that is
meant to be UTF-8 but need not be, so a text is kept as a list of glyphs:
a glyph is a character, or a single byte that belongs to no character.
Nothing is lost by this reading, and every offset reported to the user is
a count of bytes, obtained from the sizes of the glyphs before it.
-/

namespace Sequitur

/-- One unit of a text: a character, or a byte that belongs to no character. -/
inductive Glyph where
  | char (c : Char)
  | stray (b : UInt8)
deriving DecidableEq

namespace Glyph

/-- The number of bytes a glyph takes. -/
def size : Glyph → Nat
  | char c => c.utf8Size
  | stray _ => 1

/-- The bytes of a glyph. -/
def bytes : Glyph → List UInt8
  | char c => String.utf8EncodeChar c
  | stray b => [b]

/-- The character to show for a glyph; a stray byte shows as U+FFFD. -/
def shown : Glyph → Char
  | char c => c
  | stray _ => '�'

end Glyph

/-- A text: a list of glyphs. -/
abbrev Text := List Glyph

namespace Text

/-- The text of a string, which has no stray bytes. -/
def ofString (s : String) : Text := s.toList.map Glyph.char

/-- The string to show for a text, each stray byte as U+FFFD. -/
def shown (t : Text) : String := String.ofList (t.map Glyph.shown)

/-- The bytes of a text. -/
def bytes (t : Text) : List UInt8 := t.flatMap Glyph.bytes

/-- The number of bytes of a text. -/
def size : Text → Nat
  | [] => 0
  | g :: rest => g.size + size rest

/-- Whether a text takes fewer than `n` bytes; looks at `n` glyphs at most. -/
def shorterThan : Nat → Text → Bool
  | 0, _ => false
  | _ + 1, [] => true
  | n + 1, g :: rest => shorterThan (n + 1 - g.size) rest

/-! ## Reading bytes -/

/-- Whether a byte continues a character. -/
def isContinuation (b : UInt8) : Bool := 0x80 ≤ b && b ≤ 0xBF

/-- Whether two bytes are a two-byte character. -/
def isPair (a b : UInt8) : Bool := 0xC2 ≤ a && a ≤ 0xDF && isContinuation b

/-- Whether three bytes are a three-byte character: neither written longer
than needed nor a surrogate. -/
def isTriple (a b c : UInt8) : Bool :=
  0xE0 ≤ a && a ≤ 0xEF && isContinuation b && isContinuation c &&
    (a != 0xE0 || 0xA0 ≤ b) && (a != 0xED || b ≤ 0x9F)

/-- Whether four bytes are a four-byte character: neither written longer
than needed nor above U+10FFFF. -/
def isQuadruple (a b c d : UInt8) : Bool :=
  0xF0 ≤ a && a ≤ 0xF4 && isContinuation b && isContinuation c && isContinuation d &&
    (a != 0xF0 || 0x90 ≤ b) && (a != 0xF4 || b ≤ 0x8F)

/-- The character with the given leading bits and continuation bytes. -/
def assembled (lead : Nat) (continuation : List UInt8) : Glyph :=
  .char (Char.ofNat (continuation.foldl (fun n b => n * 64 + b.toNat % 64) lead))

/-- Reads bytes as UTF-8.  A byte that starts no well-formed character is
stray, and reading resumes right after it. -/
def ofBytes : List UInt8 → Text
  | [] => []
  | [a] => [ascii a]
  | [a, b] =>
    if isPair a b then [assembled (a.toNat % 32) [b]]
    else ascii a :: ofBytes [b]
  | [a, b, c] =>
    if isPair a b then assembled (a.toNat % 32) [b] :: ofBytes [c]
    else if isTriple a b c then [assembled (a.toNat % 16) [b, c]]
    else ascii a :: ofBytes [b, c]
  | a :: b :: c :: d :: rest =>
    if isPair a b then assembled (a.toNat % 32) [b] :: ofBytes (c :: d :: rest)
    else if isTriple a b c then assembled (a.toNat % 16) [b, c] :: ofBytes (d :: rest)
    else if isQuadruple a b c d then assembled (a.toNat % 8) [b, c, d] :: ofBytes rest
    else ascii a :: ofBytes (b :: c :: d :: rest)
where
  /-- A byte that stands alone: an ASCII character or a stray byte. -/
  ascii (a : UInt8) : Glyph :=
    if a < 0x80 then .char (Char.ofNat a.toNat) else .stray a

/-! ## Cutting -/

/-- Splits a text at every occurrence of a character, which is dropped.
The result has one part more than there are occurrences. -/
def splitOn (sep : Char) : Text → List Text
  | [] => [[]]
  | g :: rest =>
    if g = .char sep then [] :: splitOn sep rest
    else
      match splitOn sep rest with
      | [] => [[g]]
      | part :: parts => (g :: part) :: parts

end Text

end Sequitur
