import Sequitur.Text.Glyph

/-!
# Sequitur.Yaml.Source

The characters of a YAML stream.  A stream is UTF-8 or, if it starts with
the mark for that, UTF-16; a byte order mark in front of it does not count.
It has no control characters, apart from tabs and breaks.

Bytes arrive in portions, and what is wrong with one of them is noticed only
when it is read.  So a stream with a fault may still be read up to the
portion with the fault; `Source.supply` tells how the characters arrive.

There are several ways to end a line.  A carriage return alone is read as a
line feed, and a carriage return with a line feed as one character, the
carriage return; U+0085, U+2028 and U+2029 stay as they are.
-/

namespace Sequitur.Yaml

/-! ## Decoding -/

/-- Whether a character may stand in a stream. -/
def isAllowed (c : Char) : Bool :=
  let n := c.toNat
  n = 0x09 || n = 0x0A || n = 0x0D || (0x20 ≤ n && n ≤ 0x7E) || n = 0x85 ||
    (0xA0 ≤ n && n ≤ 0xFFFD) || 0x10000 ≤ n

/-- The byte order mark. -/
def byteOrderMark : Char := '\ufeff'

/-- A place where no character starts: the number of bytes by which this is
noticed, and the number of bytes that there are. -/
structure Fault where
  width : Nat
  left : Nat
deriving DecidableEq

/-- The characters of a stream, each with its width in bytes, up to the end
or to a fault. -/
structure Decoded where
  chars : List (Char × Nat) := []
  fault : Option Fault := none

namespace Decoded

/-- A stream with a fault at its start. -/
def faulty (width left : Nat) : Decoded := { fault := some ⟨width, left⟩ }

/-- A stream with another character in front. -/
def cons (c : Char) (width : Nat) (d : Decoded) : Decoded :=
  { d with chars := (c, width) :: d.chars }

/-- The number of bytes that a byte announces when it starts a character; a
byte that starts none is noticed at once. -/
def announced (b : UInt8) : Nat :=
  if b < 0xC0 then 1 else if b < 0xE0 then 2 else if b < 0xF0 then 3 else if b < 0xF8 then 4 else 1

/-- The characters of a stream in UTF-8. -/
def ofGlyphs : Text → Decoded
  | [] => {}
  | .char c :: rest =>
    if isAllowed c then (ofGlyphs rest).cons c c.utf8Size
    else faulty c.utf8Size (Text.size (.char c :: rest))
  | .stray b :: rest => faulty (announced b) (Text.size (.stray b :: rest))

/-- Whether a unit of UTF-16 is the first of two. -/
def isHigh (n : Nat) : Bool := 0xD800 ≤ n && n < 0xDC00

/-- Whether a unit of UTF-16 is the second of two. -/
def isLow (n : Nat) : Bool := 0xDC00 ≤ n && n < 0xE000

/-- The characters of a stream in UTF-16, whose units are made of two bytes
each by `unit`. -/
def ofUnits (unit : UInt8 → UInt8 → Nat) : List UInt8 → Decoded
  | [] => {}
  | [_] => faulty 2 1
  | [a, b] =>
    if isLow (unit a b) then faulty 2 2
    else if isHigh (unit a b) then faulty 4 2
    else single (unit a b) 2 {}
  | [a, b, _] =>
    if isLow (unit a b) then faulty 2 3
    else if isHigh (unit a b) then faulty 4 3
    else single (unit a b) 3 (faulty 2 1)
  | a :: b :: c :: d :: rest =>
    if isLow (unit a b) then faulty 2 (rest.length + 4)
    else if isHigh (unit a b) then
      if isLow (unit c d) then
        let n := 0x10000 + (unit a b - 0xD800) * 0x400 + (unit c d - 0xDC00)
        (ofUnits unit rest).cons (Char.ofNat n) 4
      else faulty 4 (rest.length + 4)
    else if isAllowed (Char.ofNat (unit a b)) then
      (ofUnits unit (c :: d :: rest)).cons (Char.ofNat (unit a b)) 2
    else faulty 2 (rest.length + 4)
where
  /-- A stream with a unit in front that is a character. -/
  single (n left : Nat) (d : Decoded) : Decoded :=
    if isAllowed (Char.ofNat n) then d.cons (Char.ofNat n) 2 else faulty 2 left

/-- The number of bytes of a portion. -/
def portionSize : Nat := 512

/-- The numbers of characters that the portions of a stream hold, given how
many bytes there is room for in the first one and how many characters it
holds already.  A character that does not fit is put off to the next
portion.  The portion in which a fault is noticed does not count. -/
def portions (fault : Option Fault) (room count : Nat) : List (Char × Nat) → List Nat
  | [] =>
    match fault with
    | none => [count]
    | some f => if f.width ≤ min room f.left then [] else [count]
  | (_, width) :: rest =>
    if width ≤ room then portions fault (room - width) (count + 1) rest
    else count :: portions fault (portionSize - width) 1 rest

end Decoded

/-- Reads every way to end a line as one character. -/
def normalize : List Char → List Char
  | [] => []
  | ['\r'] => ['\n']
  | c :: d :: rest =>
    if c = '\r' && d = '\n' then '\r' :: normalize rest
    else (if c = '\r' then '\n' else c) :: normalize (d :: rest)
  | [c] => [c]

/-! ## Supply -/

/-- How far the characters of a stream have arrived. -/
structure Ration where
  /-- The number of characters that have arrived; one more is counted each
  time that one is asked for after the end. -/
  arrived : Nat
  /-- The numbers of characters in the portions to come. -/
  portions : List Nat
  /-- The number of characters of the stream. -/
  total : Nat
  /-- Whether the stream has no fault. -/
  isSound : Bool
  /-- Whether a byte order mark was the next character when the last portion
  arrived. -/
  isMarked : Bool := false
deriving DecidableEq

namespace Ration

/-- Lets portions arrive until there are `n` characters. -/
def fill (n arrived : Nat) : List Nat → Nat × List Nat
  | [] => (arrived, [])
  | p :: ps => if n ≤ arrived then (arrived, p :: ps) else fill n (arrived + p) ps

/-- Lets portions arrive until there are `n` characters, if there are not.
Tells whether that was possible; after the end of a stream without faults it
always is. -/
def deliver (n : Nat) (isMarked : Bool) (r : Ration) : Ration × Bool :=
  if n ≤ r.arrived then (r, true)
  else
    let (arrived, portions) := fill n r.arrived r.portions
    if n ≤ arrived then ({ r with arrived, portions, isMarked }, true)
    else if r.isSound then ({ r with arrived := arrived + 1, portions, isMarked }, true)
    else ({ r with arrived := r.total, portions, isMarked }, false)

end Ration

/-- How characters arrive.  It makes no difference for a stream that has
neither faults nor byte order marks. -/
inductive Supply where
  | ample
  | rationed (r : Ration)
deriving DecidableEq

namespace Supply

/-- Lets characters arrive. -/
def deliver (n : Nat) (isMarked : Bool) : Supply → Supply × Bool
  | ample => (ample, true)
  | rationed r =>
    let (r, ok) := r.deliver n isMarked
    (rationed r, ok)

/-- Whether a byte order mark was the next character when the last portion
arrived. -/
def isMarked : Supply → Bool
  | ample => false
  | rationed r => r.isMarked

end Supply

/-- A stream: its characters, up to the end or to a fault, and how they
arrive. -/
structure Source where
  chars : List Char
  supply : Supply

namespace Source

/-- The stream of characters that have been decoded, with the number of bytes
there is room for in the first portion. -/
def ofDecoded (room : Nat) (d : Decoded) : Source :=
  let chars := d.chars.map Prod.fst
  let isSound := d.fault.isNone
  { chars := normalize chars
    supply :=
      if isSound && !chars.contains byteOrderMark then .ample
      else
        .rationed
          { arrived := 0, portions := Decoded.portions d.fault room 0 d.chars
            total := chars.length, isSound } }

/-- A number made of two bytes, the greater part first. -/
def pairOf (high low : UInt8) : Nat := high.toNat * 256 + low.toNat

/-- The stream of a text. -/
def ofText : Text → Source
  | .stray 0xFF :: .stray 0xFE :: rest =>
    ofDecoded (Decoded.portionSize - 2)
      (.ofUnits (fun low high => pairOf high low) (Text.bytes rest))
  | .stray 0xFE :: .stray 0xFF :: rest =>
    ofDecoded (Decoded.portionSize - 2) (.ofUnits pairOf (Text.bytes rest))
  | .char '\ufeff' :: rest => ofDecoded (Decoded.portionSize - 3) (.ofGlyphs rest)
  | t => ofDecoded Decoded.portionSize (.ofGlyphs t)

end Source

/-! ## Classes of characters -/

/-- Whether a character ends a line. -/
def isBreak (c : Char) : Bool :=
  c = '\n' || c = '\r' || c = '\x85' || c = '\u2028' || c = '\u2029'

/-- The break that stands in a value for one that is read. -/
def breakValue (c : Char) : Char := if c = '\r' || c = '\x85' then '\n' else c

/-- Whether a character is a space or a tab. -/
def isBlank (c : Char) : Bool := c = ' ' || c = '\t'

/-- Whether a character may stand in the name of an anchor. -/
def isWordChar (c : Char) : Bool := c.isAlphanum || c = '_' || c = '-'

/-- Whether a line ends here. -/
def atLineEnd : List Char → Bool
  | [] => true
  | c :: _ => isBreak c

/-- Whether a word ends here. -/
def atWordEnd : List Char → Bool
  | [] => true
  | c :: _ => isBlank c || isBreak c

/-- The value of a hexadecimal digit. -/
def hexValue? (c : Char) : Option Nat :=
  if c.isDigit then some (c.toNat - '0'.toNat)
  else if 'a' ≤ c && c ≤ 'f' then some (c.toNat - 'a'.toNat + 10)
  else if 'A' ≤ c && c ≤ 'F' then some (c.toNat - 'A'.toNat + 10)
  else none

/-! ## Places -/

/-- A place in a stream: the number of characters before it, and its line
and column, both counted from 0. -/
structure Mark where
  index : Nat := 0
  line : Nat := 0
  column : Nat := 0
deriving DecidableEq

/-- A place in a stream, and how far the characters have arrived. -/
structure Cursor where
  mark : Mark := {}
  supply : Supply := .ample
deriving DecidableEq

namespace Cursor

/-- The place after a character that ends no line. -/
def next (k : Cursor) : Cursor :=
  { k with mark := { k.mark with index := k.mark.index + 1, column := k.mark.column + 1 } }

/-- The place after a break, which may be made of two characters. -/
def newline (c : Char) (k : Cursor) : Cursor :=
  let width := if c = '\r' then 2 else 1
  { k with mark := { index := k.mark.index + width, line := k.mark.line + 1, column := 0 } }

/-- Asks for the next `n` characters, `rest` being what follows.  Tells
whether they could arrive. -/
def ask (n : Nat) (rest : List Char) (k : Cursor) : Cursor × Bool :=
  let (supply, ok) := k.supply.deliver (k.mark.index + n) (rest.head? = some byteOrderMark)
  ({ k with supply }, ok)

/-- Needs the next `n` characters: reading fails if they cannot arrive. -/
def need (n : Nat) (rest : List Char) (k : Cursor) : Option Cursor :=
  match k.ask n rest with
  | (k, true) => some k
  | (_, false) => none

/-- An ample supply has all that is needed. -/
@[simp] theorem need_ample (n : Nat) (rest : List Char) (m : Mark) :
    need n rest { mark := m, supply := .ample } = some { mark := m, supply := .ample } := rfl

end Cursor

/-- Reads characters of a kind, none of them a break.  One more character is
needed after each of them. -/
def span (kind : Char → Bool) (k : Cursor) : List Char → Option (List Char × Cursor × List Char)
  | [] => some ([], k, [])
  | c :: rest =>
    if kind c then do
      let k ← k.next.need 1 rest
      let (cs, k, rest) ← span kind k rest
      return (c :: cs, k, rest)
    else some ([], k, c :: rest)

/-- Reads a break, of which both characters are needed. -/
def lineBreak (c : Char) (k : Cursor) (rest : List Char) : Option Cursor := do
  let k ← k.need 2 (c :: rest)
  return k.newline c

/-- Whether a document starts or ends here: three dashes or three points at
the start of a line, with no other character after them. -/
def atDocumentIndicator (m : Mark) (cs : List Char) : Bool :=
  m.column = 0 &&
    match cs with
    | a :: b :: c :: rest => a = b && b = c && (a = '-' || a = '.') && atWordEnd rest
    | _ => false

end Sequitur.Yaml
