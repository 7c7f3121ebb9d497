import Sequitur.Text.Blank

/-!
# Sequitur.Console.Prompt

The line that is being typed.  It has a cursor, holds 1024 characters at
most, and shows as many of them as its width allows; every character takes
one column.  What is shown moves only as far as is needed to keep the cursor
in sight.  It may move at every step of the cursor, so a cursor that passes
a word is moved one character at a time.

Breaks and tabs that are typed become spaces, and other control characters
are dropped.
-/

namespace Sequitur

/-- What can be done to the line at the cursor. -/
inductive Edit where
  | left
  | right
  | home
  | toEnd
  | backspace
  | delete
  /-- Back to the start of a word. -/
  | wordLeft
  /-- On to the end of a word. -/
  | wordRight
  | deleteWordLeft
  | deleteWordRight
  /-- Deletes what is before the cursor. -/
  | deleteBefore
  /-- Deletes what is after the cursor. -/
  | deleteAfter
  /-- Changes nothing, but keeps the cursor in sight. -/
  | stay
  /-- Does nothing at all. -/
  | ignore
deriving DecidableEq

/-- A line with a cursor, and the part of it that is shown. -/
structure Prompt where
  chars : List Char := []
  /-- The number of characters before the cursor. -/
  cursor : Nat := 0
  /-- The number of columns; 0 for no limit. -/
  width : Nat := 0
  /-- The number of characters before the part that is shown. -/
  first : Nat := 0
  /-- The number of characters up to the end of that part. -/
  last : Nat := 0
deriving DecidableEq

namespace Prompt

/-- The greatest number of characters. -/
def limit : Nat := 1024

/-- Whether a character is a control character. -/
def isControl (c : Char) : Bool := c.toNat < 0x20 || (0x7F ≤ c.toNat && c.toNat ≤ 0x9F)

/-- What a typed character adds to the line. -/
def accepted (c : Char) : List Char :=
  if c = '\n' || c = '\r' || c = '\t' then [' ']
  else if c = '�' || isControl c then []
  else [c]

/-- What a text adds to the line; a stray byte adds nothing. -/
def typable (t : Text) : List Char :=
  t.flatMap fun g =>
    match g with
    | .char c => accepted c
    | .stray _ => []

/-- The text of the line. -/
def text (p : Prompt) : Text := p.chars.map Glyph.char

/-! ## What is shown -/

/-- Moves what is shown to where the cursor is. -/
def scrolled (p : Prompt) : Prompt :=
  let n := p.chars.length
  if p.width = 0 || n ≤ p.width then { p with first := 0, last := n }
  else if p.cursor < p.first then
    { p with first := p.cursor, last := min n (p.cursor + p.width + 1) }
  else if min p.last n ≤ p.cursor then
    { p with first := p.cursor - min p.width (p.cursor - 1), last := p.cursor }
  else { p with last := min p.last n }

/-- The part of the line that is shown. -/
def shown (p : Prompt) : String :=
  String.ofList ((p.chars.take p.last).drop p.first)

/-! ## Editing -/

/-- Puts the cursor somewhere in the line. -/
def moveTo (n : Nat) (p : Prompt) : Prompt := { p with cursor := min n p.chars.length }.scrolled

/-- Puts other characters into the line, cutting off what is too much.  The
cursor stays, unless it was in an empty line or is past the end. -/
def setChars (cs : List Char) (p : Prompt) : Prompt :=
  let q := { p with chars := cs.take limit }
  let atEnd := (p.cursor = 0 && p.chars.isEmpty) || q.chars.length < q.cursor
  (if atEnd then q.moveTo q.chars.length else q).scrolled

/-- Replaces the line by a text. -/
def setText (t : Text) (p : Prompt) : Prompt := p.setChars (typable t)

/-- Moves the cursor to the end. -/
def toEnd (p : Prompt) : Prompt := p.moveTo p.chars.length

/-- Types a text at the cursor, as much of it as there is room for. -/
def type (t : Text) (p : Prompt) : Prompt :=
  let more := (typable t).take (limit - p.chars.length)
  { p with cursor := p.cursor + more.length }.setChars
    (p.chars.take p.cursor ++ more ++ p.chars.drop p.cursor)

/-! ## Words -/

/-- Moves the cursor on while the characters after it are of a kind; the
list has those characters. -/
def forwardWhile (kind : Char → Bool) : List Char → Prompt → Prompt
  | [], p => p
  | c :: rest, p => if kind c then forwardWhile kind rest (p.moveTo (p.cursor + 1)) else p

/-- Moves the cursor on while the characters after it are of a kind. -/
def forward (kind : Char → Bool) (p : Prompt) : Prompt :=
  forwardWhile kind (p.chars.drop p.cursor) p

/-- Moves the cursor back while the characters before it are of a kind; the
list has those characters, the nearest first. -/
def backWhile (kind : Char → Bool) : List Char → Prompt → Prompt
  | [], p => p
  | c :: rest, p => if kind c then backWhile kind rest (p.moveTo (p.cursor - 1)) else p

/-- Moves the cursor back while the characters before it are of a kind. -/
def back (kind : Char → Bool) (p : Prompt) : Prompt :=
  backWhile kind (p.chars.take p.cursor).reverse p

/-- Whether a character belongs to a word. -/
def inWord (c : Char) : Bool := !isBlankChar c

/-- Moves the cursor back over blanks to the first one whose own character
is of a word, or to the start; the list has the character at the cursor and
those before it. -/
def backOnto : List Char → Prompt → Prompt
  | c :: d :: rest, p => if isBlankChar c then backOnto (d :: rest) (p.moveTo (p.cursor - 1)) else p
  | _, p => p

/-- Moves the cursor back over a word, from its last character to its first
one; the list has the character at the cursor and those before it.  A blank
at the start of the line counts as part of the word. -/
def backThrough : List Char → Prompt → Prompt
  | c :: d :: rest, p =>
    if inWord c then backThrough (d :: rest) (p.moveTo (p.cursor - 1)) else p.moveTo (p.cursor + 1)
  | _, p => p

/-- The character at the cursor and those before it, the nearest first. -/
def upToCursor (p : Prompt) : List Char := (p.chars.take (p.cursor + 1)).reverse

/-- Deletes the word before the cursor, with the blanks after it. -/
def deleteWordLeft (p : Prompt) : Prompt :=
  if p.cursor = 0 || p.chars.isEmpty then p
  else
    let q := p.moveTo (p.cursor - 1)
    let q := backOnto q.upToCursor q
    let q := backThrough q.upToCursor q
    { q with chars := q.chars.take q.cursor ++ q.chars.drop p.cursor }

/-- Deletes the word after the cursor, with the blanks before it.  The first
character goes in any case. -/
def deleteWordRight (p : Prompt) : Prompt :=
  if p.chars.length ≤ p.cursor then p
  else
    let q := ((p.moveTo (p.cursor + 1)).forward isBlankChar).forward inWord
    { q with chars := q.chars.take p.cursor ++ q.chars.drop q.cursor }.moveTo p.cursor

/-- Edits the line. -/
def edit (p : Prompt) : Edit → Prompt
  | .left => p.moveTo (p.cursor - 1)
  | .right => p.moveTo (p.cursor + 1)
  | .home => p.moveTo 0
  | .toEnd => p.toEnd
  | .backspace =>
    { p with chars := p.chars.take (p.cursor - 1) ++ p.chars.drop p.cursor }.moveTo (p.cursor - 1)
  | .delete =>
    { p with chars := p.chars.take p.cursor ++ p.chars.drop (p.cursor + 1) }.scrolled
  | .wordLeft => ((p.back isBlankChar).back inWord).scrolled
  | .wordRight => ((p.forward isBlankChar).forward inWord).scrolled
  | .deleteWordLeft => p.deleteWordLeft.scrolled
  | .deleteWordRight => p.deleteWordRight.scrolled
  | .deleteBefore => { p with chars := p.chars.drop p.cursor, first := 0 }.moveTo 0
  | .deleteAfter => { p with chars := p.chars.take p.cursor }.toEnd
  | .stay => p.scrolled
  | .ignore => p

/-- The edit that a word stands for when it is typed at once, as keys of a
terminal are named. -/
def named? (word : String) : Option Edit :=
  [("left", .left), ("ctrl+b", .left), ("right", .right), ("ctrl+f", .right), ("home", .home),
    ("ctrl+a", .home), ("end", .toEnd), ("ctrl+e", .toEnd), ("backspace", .backspace),
    ("ctrl+h", .backspace), ("delete", .delete), ("ctrl+d", .delete), ("alt+left", .wordLeft),
    ("ctrl+left", .wordLeft), ("alt+b", .wordLeft), ("alt+right", .wordRight),
    ("ctrl+right", .wordRight), ("alt+f", .wordRight), ("alt+backspace", .deleteWordLeft),
    ("ctrl+w", .deleteWordLeft), ("alt+delete", .deleteWordRight), ("alt+d", .deleteWordRight),
    ("ctrl+u", .deleteBefore), ("ctrl+k", .deleteAfter), ("up", .stay), ("down", .stay),
    ("ctrl+p", .stay), ("ctrl+n", .stay), ("ctrl+v", .ignore)].lookup word

end Prompt

end Sequitur
