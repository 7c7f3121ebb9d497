import Sequitur.Text.Base64
import Sequitur.Text.Quoted
import Sequitur.Yaml.Value

/-!
# Sequitur.Yaml.Quoting

Writing a string as a scalar of a block mapping, so that it reads back as
that string.

A string of several lines is a literal block.  Otherwise it is plain if it
can be, that is, if it does not stand for something else and holds nothing
that means something in a block; else it is in single quotes if nothing in
it needs to be escaped, and in double quotes if something does.  A string
that would stand for something else is always in double quotes.

A text with bytes that belong to no character is no string; its bytes are
written in base 64, with a tag that tells so.
-/

namespace Sequitur.Yaml

/-! ## Strings that stand for something else -/

/-- Whether a string is one of the words that older readers take for a
boolean. -/
def isOldBool (s : String) : Bool :=
  s ∈ ["y", "Y", "yes", "Yes", "YES", "on", "On", "ON",
    "n", "N", "no", "No", "NO", "off", "Off", "OFF"]

/-- Where one is in a number to the base of sixty: among the digits of its
first place, after a colon, after a digit of a place that may have another,
after the last digit of a place, or in the fraction. -/
inductive SixtyState where
  | leading
  | colon
  | digit
  | place
  | fraction
deriving DecidableEq

/-- Whether a text is the rest of a number to the base of sixty.  Each place
after the first is a colon and a number below sixty. -/
def isSexagesimal (st : SixtyState) : List Char → Bool
  | [] => st ≠ .leading && st ≠ .colon
  | c :: rest =>
    match st with
    | .leading =>
      if c.isDigit || c = '_' then isSexagesimal .leading rest
      else c = ':' && isSexagesimal .colon rest
    | .colon =>
      if '0' ≤ c && c ≤ '5' then isSexagesimal .digit rest
      else c.isDigit && isSexagesimal .place rest
    | .digit =>
      if c.isDigit then isSexagesimal .place rest
      else if c = ':' then isSexagesimal .colon rest
      else c = '.' && isSexagesimal .fraction rest
    | .place =>
      if c = ':' then isSexagesimal .colon rest else c = '.' && isSexagesimal .fraction rest
    | .fraction => (c.isDigit || c = '_') && isSexagesimal .fraction rest

/-- Whether a string is a number to the base of sixty, which older readers
take for a number. -/
def isBaseSixty (s : String) : Bool :=
  match unsigned s.toList with
  | [] => false
  | c :: rest => c.isDigit && isSexagesimal .leading rest

/-- Whether a plain scalar stands for a string itself. -/
def standsForItself (s : String) : Bool :=
  Value.ofText true s = .text && !isBaseSixty s && !isOldBool s

/-! ## What a string holds -/

/-- Whether a character is written as it is. -/
def isWritable (c : Char) : Bool :=
  let n := c.toNat
  n = 0x0A || (0x20 ≤ n && n ≤ 0x7E) || (0xA0 ≤ n && n ≤ 0xFFFD && n ≠ 0xFEFF)

/-- Whether a character other than a tab has to be escaped. -/
def needsEscape (c : Char) : Bool := c ≠ '\t' && !isWritable c

/-- Whether a blank or the end follows. -/
def blankFollows : List Char → Bool
  | [] => true
  | c :: _ => isBlank c

/-- Whether the first character of a string means something in a block. -/
def startsIndicator : List Char → Bool
  | [] => false
  | c :: rest =>
    c ∈ ['#', ',', '[', ']', '\x7b', '\x7d', '&', '*', '!', '|', '>', '\x27', '"', '%', '@',
      Char.ofNat 0x60] ||
    ((c = '?' || c = ':' || c = '-') && blankFollows rest)

/-- Whether a character after the first one means something in a block: a
colon before a blank, or a number sign after one. -/
def holdsIndicator (afterBlank : Bool) : List Char → Bool
  | [] => false
  | c :: rest =>
    (c = ':' && blankFollows rest) || (c = '#' && afterBlank) ||
      holdsIndicator (isBlank c || isBreak c) rest

/-- Whether a string starts as a document indicator does. -/
def startsDocument : List Char → Bool
  | a :: b :: c :: _ => a = b && b = c && (a = '-' || a = '.')
  | _ => false

/-- Whether a string means something in a block. -/
def hasIndicator (cs : List Char) : Bool :=
  startsDocument cs || startsIndicator cs ||
    holdsIndicator (cs.head?.any fun c => isBlank c || isBreak c) cs.tail

/-- Whether two characters that stand next to each other are of two kinds. -/
def holdsPair (p q : Char → Bool) : List Char → Bool
  | a :: b :: rest => (p a && q b) || holdsPair p q (b :: rest)
  | _ => false

/-- Whether a string starts or ends with a space or a break. -/
def hasLooseEnd (cs : List Char) : Bool :=
  let loose := fun c => c = ' ' || isBreak c
  cs.head?.any loose || cs.getLast?.any loose

/-- Whether a space stands before a break. -/
def spaceBeforeBreak (cs : List Char) : Bool := holdsPair (· = ' ') isBreak cs

/-- Whether a string can be written in quotes without escapes. -/
def canBeSingle (cs : List Char) : Bool :=
  !(holdsPair isBreak (· = ' ') cs || spaceBeforeBreak cs || cs.any (· = '\t') ||
    cs.any needsEscape)

/-- Whether a string can be written without quotes. -/
def canBePlain (cs : List Char) : Bool :=
  canBeSingle cs && !hasLooseEnd cs && !cs.any isBreak && !hasIndicator cs

/-- Whether a string can be written as a literal block. -/
def canBeLiteral (cs : List Char) : Bool :=
  !(cs.getLast? = some ' ' || spaceBeforeBreak cs || cs.any needsEscape)

/-! ## Writing -/

/-- The escape of a character, without its backslash. -/
def escapeOf (c : Char) : List Char :=
  match c.toNat with
  | 0x00 => ['0']
  | 0x07 => ['a']
  | 0x08 => ['b']
  | 0x09 => ['t']
  | 0x0A => ['n']
  | 0x0B => ['v']
  | 0x0C => ['f']
  | 0x0D => ['r']
  | 0x1B => ['e']
  | 0x22 => ['"']
  | 0x5C => ['\\']
  | 0x85 => ['N']
  | 0xA0 => ['_']
  | 0x2028 => ['L']
  | 0x2029 => ['P']
  | n =>
    if n ≤ 0xFF then 'x' :: (hexDigits 2 n).map Char.toUpper
    else if n ≤ 0xFFFF then 'u' :: (hexDigits 4 n).map Char.toUpper
    else 'U' :: (hexDigits 8 n).map Char.toUpper

/-- A character in double quotes. -/
def inDoubleQuotes (c : Char) : List Char :=
  if !isWritable c || isBreak c || c = '"' || c = '\\' then '\\' :: escapeOf c else [c]

/-- A string in double quotes.  All of it is escaped if it starts with a byte
order mark. -/
def doubleQuotedText (cs : List Char) : List Char :=
  let written : Char → List Char :=
    if cs.head? = some byteOrderMark then fun c => '\\' :: escapeOf c else inDoubleQuotes
  '"' :: cs.flatMap written ++ ['"']

/-- The characters of a string in single quotes, each line after the first
with an indentation. -/
def inSingleQuotes (indent : Nat) (afterBreak : Bool) : List Char → List Char
  | [] => []
  | c :: rest =>
    if isBreak c then c :: inSingleQuotes indent true rest
    else
      (if afterBreak then List.replicate indent ' ' else []) ++
        (if c = '\x27' then ['\x27', '\x27'] else [c]) ++ inSingleQuotes indent false rest

/-- A string in single quotes. -/
def singleQuotedText (indent : Nat) (cs : List Char) : List Char :=
  '\x27' :: inSingleQuotes indent false cs ++ ['\x27']

/-- The lines of a literal block with their indentation, after a break or
within a line. -/
def literalLines (indent : Nat) (afterBreak : Bool) : List Char → List Char
  | [] => []
  | c :: rest =>
    if isBreak c then c :: literalLines indent true rest
    else
      (if afterBreak then List.replicate indent ' ' else []) ++ c :: literalLines indent false rest

/-- The signs after the bar of a literal block: the width of an indentation
if the first line starts with a space or is empty, and what becomes of the
breaks at its end. -/
def literalHeader (width : Nat) (cs : List Char) : List Char :=
  let spaced := cs.head?.any fun c => c = ' ' || isBreak c
  let chomping := match cs.reverse with
    | [] => ['-']
    | [c] => if isBreak c then ['+'] else ['-']
    | c :: d :: _ => if !isBreak c then ['-'] else if isBreak d then ['+'] else []
  (if spaced then (toString width).toList else []) ++ chomping

/-- A string as a literal block.  A break at its start also ends the line of
the bar. -/
def literalText (width indent : Nat) (cs : List Char) : List Char :=
  '|' :: literalHeader width cs ++ (if cs.head?.any isBreak then [] else ['\n']) ++
    literalLines indent true cs

/-- A string as a scalar in a mapping whose collections are indented by
`width` columns each; `indent` is that of the lines after the first. -/
def stringText (width indent : Nat) (s : String) : List Char :=
  let cs := s.toList
  if cs.any (· = '\n') then
    if canBeLiteral cs then literalText width indent cs else doubleQuotedText cs
  else if !standsForItself s then doubleQuotedText cs
  else if canBePlain cs then cs
  else if canBeSingle cs then singleQuotedText indent cs
  else doubleQuotedText cs

/-- The number of digits on a line of base 64. -/
def digitsPerLine : Nat := 70

/-- Digits on lines of their own, given the room on the first line. -/
def digitLines (room : Nat) : List Char → List Char
  | [] => ['\n']
  | c :: cs =>
    match room with
    | 0 => '\n' :: c :: digitLines (digitsPerLine - 1) cs
    | room + 1 => c :: digitLines room cs

/-- Bytes in base 64: on the same line if they fit, else a literal block. -/
def binaryText (width indent : Nat) (bs : List UInt8) : List Char :=
  let digits := Base64.encode bs
  "!!binary ".toList ++
    if digits.length < digitsPerLine then digits
    else literalText width indent (digitLines digitsPerLine digits)

/-- A text as a scalar. -/
def scalarText (width indent : Nat) (t : Text) : List Char :=
  if t.any fun | .stray _ => true | .char _ => false then binaryText width indent t.bytes
  else stringText width indent t.shown

/-- A scalar with the break after it, unless it ends in one. -/
def ended (cs : List Char) : List Char := if cs.getLast?.any isBreak then cs else cs ++ ['\n']

end Sequitur.Yaml
