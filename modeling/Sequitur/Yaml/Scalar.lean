import Sequitur.Yaml.Source

/-!
# Sequitur.Yaml.Scalar

Reading scalars: plain ones, the two kinds of quoted ones, and blocks.

In plain and quoted scalars a line break is folded.  Blanks around it are
dropped, a single break becomes a space, and of several the first is
dropped.  A `Gap` holds the blanks and breaks read since the last other
character, and `Gap.joined` is what they become if a character follows.

Each reader takes the place it starts at and the characters from there on,
and tells what it read and where it stopped, or nothing if what it read is
no scalar.  At the start of a word it looks at four characters, for a
document may start or end there.
-/

namespace Sequitur.Yaml

/-- The outcome of reading a scalar: its value and where it ends.  It is
`broken` if a break was read past its last character. -/
structure Scanned where
  value : List Char
  cursor : Cursor
  rest : List Char
  broken : Bool := false

/-- Puts characters in front of a value. -/
def Scanned.prepend (cs : List Char) (s : Scanned) : Scanned := { s with value := cs ++ s.value }

/-! ## Gaps -/

/-- Blanks and breaks between two characters of a scalar: the blanks before
the first break, whether there was a break, the first break (a break that
is escaped is none), and the breaks after it. -/
structure Gap where
  blanks : List Char := []
  broken : Bool := false
  first : Option Char := none
  breaks : List Char := []

namespace Gap

/-- The gap between characters that stand next to each other. -/
def none : Gap := {}

/-- A gap, and a blank after it. -/
def blank (c : Char) (g : Gap) : Gap :=
  if g.broken then g else { g with blanks := g.blanks ++ [c] }

/-- A gap, and a break after it. -/
def lineBreak (c : Char) (g : Gap) : Gap :=
  let c := breakValue c
  if g.broken then { g with breaks := g.breaks ++ [c] }
  else { blanks := [], broken := true, first := some c, breaks := g.breaks }

/-- Whether there is anything in a gap. -/
def isOpen (g : Gap) : Bool := g.broken || !g.blanks.isEmpty

/-- What a gap between two characters stands for. -/
def joined (g : Gap) : List Char :=
  if g.broken then
    match g.first with
    | some '\n' => if g.breaks.isEmpty then [' '] else g.breaks
    | some c => c :: g.breaks
    | .none => g.breaks
  else g.blanks

end Gap

/-- Needs the four characters at the start of a word, if one starts here. -/
def atWord (starts : Bool) (k : Cursor) (rest : List Char) : Option Cursor :=
  if starts then k.need 4 rest else some k

/-! ## Quoted scalars -/

/-- Reads a scalar in single quotes, from after the first quote on; `starts`
says that this is the first character.  A quote in it is written twice. -/
def singleQuoted (starts : Bool) (k : Cursor) (g : Gap) : List Char → Option Scanned
  | [] => none
  | c :: rest =>
    if isBlank c then do
      let k ← k.next.need 1 rest
      singleQuoted starts k (g.blank c) rest
    else if isBreak c then do
      let k ← (← lineBreak c k rest).need 1 rest
      singleQuoted starts k (g.lineBreak c) rest
    else do
      let k ← atWord (starts || g.isOpen) k (c :: rest)
      if atDocumentIndicator k.mark (c :: rest) then none
      else if c = '\x27' then
        match rest with
        | [] => some { value := g.joined, cursor := k.next, rest := [] }
        | d :: rest' =>
          if d = '\x27' then do
            let k ← k.next.next.need 2 rest'
            (singleQuoted false k .none rest').map (Scanned.prepend (g.joined ++ ['\x27']))
          else some { value := g.joined, cursor := k.next, rest := d :: rest' }
      else do
        let k ← k.next.need 2 rest
        (singleQuoted false k .none rest).map (Scanned.prepend (g.joined ++ [c]))

/-- What a character stands for after a backslash in double quotes. -/
inductive Escaped where
  /-- A character. -/
  | char (c : Char)
  /-- The start of a code point of so many hexadecimal digits. -/
  | code (digits : Nat)

/-- The meaning of a character after a backslash, if it has one. -/
def escaped? (c : Char) : Option Escaped :=
  match c with
  | '0' => some (.char '\x00')
  | 'a' => some (.char '\x07')
  | 'b' => some (.char '\x08')
  | 't' => some (.char '\t')
  | '\t' => some (.char '\t')
  | 'n' => some (.char '\n')
  | 'v' => some (.char '\x0b')
  | 'f' => some (.char '\x0c')
  | 'r' => some (.char '\r')
  | 'e' => some (.char '\x1b')
  | ' ' => some (.char ' ')
  | '"' => some (.char '"')
  | '\x27' => some (.char '\x27')
  | '\\' => some (.char '\\')
  | 'N' => some (.char '\x85')
  | '_' => some (.char '\xa0')
  | 'L' => some (.char '\u2028')
  | 'P' => some (.char '\u2029')
  | 'x' => some (.code 2)
  | 'u' => some (.code 4)
  | 'U' => some (.code 8)
  | _ => none

/-- Where a reader is in an escape: in none, after its backslash, or among
its digits with the given number of digits to come and the value of those
read. -/
inductive EscapeState where
  | outside
  | backslash
  | digits (left value : Nat)

/-- Reads a scalar in double quotes, from after the first quote on; `starts`
says that this is the first character.  A break that is escaped opens a gap
which stands for nothing; a quote right after it ends the scalar. -/
def doubleQuoted (starts : Bool) (k : Cursor) (g : Gap) (e : EscapeState) :
    List Char → Option Scanned
  | [] => none
  | c :: rest =>
    match e with
    | .digits left value =>
      match hexValue? c with
      | none => none
      | some d =>
        let value := value * 16 + d
        if left ≤ 1 then
          if value.isValidChar then do
            let k ← k.next.need 2 rest
            (doubleQuoted false k .none .outside rest).map (Scanned.prepend [Char.ofNat value])
          else none
        else doubleQuoted false k.next .none (.digits (left - 1) value) rest
    | .backslash =>
      if isBreak c then do
        let k ← (← lineBreak c k rest).need 1 rest
        doubleQuoted false k { broken := true } .outside rest
      else
        match escaped? c with
        | none => none
        | some (.char d) => do
          let k ← k.next.need 2 rest
          (doubleQuoted false k .none .outside rest).map (Scanned.prepend [d])
        | some (.code n) => do
          let k ← k.next.need n rest
          doubleQuoted false k .none (.digits n 0) rest
    | .outside =>
      if isBlank c then do
        let k ← k.next.need 1 rest
        doubleQuoted starts k (g.blank c) .outside rest
      else if isBreak c then do
        let k ← (← lineBreak c k rest).need 1 rest
        doubleQuoted starts k (g.lineBreak c) .outside rest
      else do
        let k ← atWord (starts || g.isOpen) k (c :: rest)
        if atDocumentIndicator k.mark (c :: rest) then none
        else if c = '"' then some { value := g.joined, cursor := k.next, rest }
        else if c = '\\' then
          (doubleQuoted false k.next .none .backslash rest).map (Scanned.prepend g.joined)
        else do
          let k ← k.next.need 2 rest
          (doubleQuoted false k .none .outside rest).map (Scanned.prepend (g.joined ++ [c]))

/-! ## Plain scalars -/

/-- Whether a plain scalar ends before a character that is no blank: at a
colon with a blank after it and, in a flow collection, at its punctuation. -/
def endsPlain (inFlow : Bool) (c : Char) (rest : List Char) : Bool :=
  (c = ':' && atWordEnd rest) ||
    (inFlow && (c = ',' || c = '?' || c = '[' || c = ']' || c = '\x7b' || c = '\x7d'))

/-- Reads a plain scalar whose lines are indented by `indent` columns or
more; `starts` says that this is the first character.  It stops, after the
blanks that follow it, at a comment, a document indicator, a line indented
less, or a character that ends plain scalars.  A tab may not stand in for
the indentation. -/
def plain (inFlow : Bool) (indent : Nat) (starts : Bool) (k : Cursor) (g : Gap) :
    List Char → Option Scanned
  | [] => some { value := [], cursor := k, rest := [], broken := g.broken }
  | c :: rest =>
    if isBlank c then
      if g.broken && k.mark.column < indent && c = '\t' then none
      else do
        let k ← k.next.need 1 rest
        plain inFlow indent starts k (g.blank c) rest
    else if isBreak c then do
      let k ← (← lineBreak c k rest).need 1 rest
      plain inFlow indent starts k (g.lineBreak c) rest
    else if g.isOpen && !inFlow && k.mark.column < indent then
      some { value := [], cursor := k, rest := c :: rest, broken := g.broken }
    else do
      let k ← atWord (starts || g.isOpen) k (c :: rest)
      if (g.isOpen && (atDocumentIndicator k.mark (c :: rest) || c = '#')) ||
          endsPlain inFlow c rest then
        some { value := [], cursor := k, rest := c :: rest, broken := g.broken }
      else do
        let k ← k.next.need 2 rest
        (plain inFlow indent false k .none rest).map (Scanned.prepend (g.joined ++ [c]))

/-! ## Blocks -/

/-- What becomes of the breaks at the end of a block. -/
inductive Chomping where
  /-- All are dropped. -/
  | strip
  /-- One is kept. -/
  | clip
  /-- All are kept. -/
  | keep
deriving DecidableEq

/-- The sign of a way of chomping. -/
def chomping? (c : Char) : Option Chomping :=
  if c = '+' then some .keep else if c = '-' then some .strip else none

/-- A digit from 1 to 9, which gives the indentation of a block. -/
def indentDigit? (c : Char) : Option Nat :=
  if '1' ≤ c && c ≤ '9' then some (c.toNat - '0'.toNat) else none

/-- The header of a block, and where it ends. -/
structure BlockHeader where
  chomping : Chomping := .clip
  /-- The indentation, relative to the collection around the block; 0 if it
  is still to be found out. -/
  digit : Nat := 0
  cursor : Cursor
  rest : List Char

/-- Reads the header of a block after its first character: a sign and a
digit, in any order and either of them left out. -/
def blockHeader (k : Cursor) : List Char → Option BlockHeader
  | [] => some { cursor := k, rest := [] }
  | c :: rest =>
    match chomping? c with
    | some chomping => do
      let k ← k.next.need 1 rest
      match rest with
      | [] => return { chomping, cursor := k, rest := [] }
      | d :: rest' =>
        match indentDigit? d with
        | some digit => return { chomping, digit, cursor := k.next, rest := rest' }
        | none => if d = '0' then none else return { chomping, cursor := k, rest }
    | none =>
      match indentDigit? c with
      | none => if c = '0' then none else some { cursor := k, rest := c :: rest }
      | some digit => do
        let k ← k.next.need 1 rest
        match rest with
        | [] => return { digit, cursor := k, rest := [] }
        | d :: rest' =>
          match chomping? d with
          | some chomping => return { chomping, digit, cursor := k.next, rest := rest' }
          | none => return { digit, cursor := k, rest }

/-- The empty lines of a block, and the indentation of the line after them:
its greatest column so far, the breaks, and where that line starts. -/
structure EmptyLines where
  column : Nat
  breaks : List Char
  cursor : Cursor
  rest : List Char

/-- Reads empty lines and the indentation after them.  An `indent` of 0 is
one that is still to be found out.  There may be no tab in it. -/
def emptyLines (indent column : Nat) (k : Cursor) : List Char → Option EmptyLines
  | [] => some { column := max column k.mark.column, breaks := [], cursor := k, rest := [] }
  | c :: rest =>
    let inside := indent = 0 || k.mark.column < indent
    if inside && c = ' ' then do
      let k ← k.next.need 1 rest
      emptyLines indent column k rest
    else if inside && c = '\t' then none
    else if isBreak c then do
      let k' ← (← lineBreak c k rest).need 1 rest
      let e ← emptyLines indent (max column k.mark.column) k' rest
      return { e with breaks := breakValue c :: e.breaks }
    else
      some { column := max column k.mark.column, breaks := [], cursor := k, rest := c :: rest }

/-- The lines of a block: their text, the break after the last one, and the
empty lines that follow. -/
structure BlockLines where
  value : List Char
  last : List Char
  after : EmptyLines

/-- The break at the end of a line, of which both characters are needed. -/
def lineEnd (k : Cursor) (rest : List Char) : Option (List Char × Cursor × List Char) := do
  let k ← k.need 2 rest
  match rest with
  | [] => return ([], k, [])
  | c :: rest =>
    if isBreak c then return ([breakValue c], k.newline c, rest) else return ([], k, c :: rest)

/-- Reads the lines of a block, given whether the line before starts with a
blank, the break that ends it and the empty lines after it.  If the block
is folded, a break between two lines that start with no blank becomes a
space, or is dropped before empty lines. -/
def blockLines (isLiteral : Bool) (indent : Nat) :
    Nat → Bool → List Char → EmptyLines → Option BlockLines
  | 0, _, _, _ => none
  | fuel + 1, blankBefore, last, e =>
    match e.rest with
    | [] => some { value := [], last, after := e }
    | c :: _ =>
      if e.cursor.mark.column ≠ indent then some { value := [], last, after := e }
      else do
        let joint :=
          if !isLiteral && !blankBefore && !isBlank c && last = ['\n'] then
            if e.breaks.isEmpty then [' '] else []
          else last
        let (line, k, rest) ← span (!isBreak ·) e.cursor e.rest
        let (last, k, rest) ← lineEnd k rest
        let k ← k.need 1 rest
        let next ← emptyLines indent 0 k rest
        let lines ← blockLines isLiteral indent fuel (isBlank c) last next
        return { lines with value := joint ++ e.breaks ++ line ++ lines.value }

/-- Reads blanks and a comment up to the end of a line, and the break there. -/
def restOfLine (k : Cursor) (rest : List Char) : Option (Cursor × List Char) := do
  let k ← k.need 1 rest
  let (_, k, rest) ← span isBlank k rest
  let (_, k, rest) ← if rest.head? = some '#' then span (!isBreak ·) k rest else some ([], k, rest)
  match rest with
  | [] => return (k, [])
  | c :: rest => if isBreak c then return (← lineBreak c k rest, rest) else none

/-- Reads a block from after its first character on, inside of a block
collection with the given indentation. -/
def block (isLiteral : Bool) (outer : Int) (k : Cursor) (rest : List Char) : Option Scanned := do
  let k ← k.need 1 rest
  let h ← blockHeader k rest
  let (k, rest) ← restOfLine h.cursor h.rest
  let k ← k.need 1 rest
  let indent := if h.digit = 0 then 0 else outer.toNat + h.digit
  let e ← emptyLines indent 0 k rest
  let indent := if indent = 0 then max (max e.column (outer + 1).toNat) 1 else indent
  let lines ← blockLines isLiteral indent (rest.length + 1) false [] e
  let ending := match h.chomping with
    | .strip => []
    | .clip => lines.last
    | .keep => lines.last ++ lines.after.breaks
  return { value := lines.value ++ ending, cursor := lines.after.cursor, rest := lines.after.rest,
           broken := true }

end Sequitur.Yaml
