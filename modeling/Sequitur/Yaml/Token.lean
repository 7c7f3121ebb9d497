import Sequitur.Yaml.Scalar

/-!
# Sequitur.Yaml.Token

The tokens of a YAML stream.

In a block collection structure is shown by indentation: a token at a
greater column opens a collection, one at a smaller column closes all those
that are indented more.  A key is recognized only at the colon after it, so
the scanner remembers where a key may have started, one place per level of
flow collections, and puts the tokens for it there once the colon is found.
Such a key stands on one line and takes 1024 characters at most.

Tokens are taken one by one.  Before one is taken, the two after it are
read, and more of them as long as it may start a key.  If the colon of a key
is found only after the token at its start was taken, the tokens for the key
come where the colon is.

Scanning ends at the first place that starts no token.  The tokens that
could be taken before are kept, because a reader may be content with the
first document.
-/

namespace Sequitur.Yaml

/-- The kinds of tokens. -/
inductive TokenKind where
  | streamStart
  | streamEnd
  /-- A directive that gives the version of the format. -/
  | version (major minor : Nat)
  /-- A directive that gives what a handle of tags stands for. -/
  | tagHandle (handle : List Char) (stem : Text)
  | documentStart
  | documentEnd
  | blockSequenceStart
  | blockMappingStart
  | blockEnd
  | flowSequenceStart
  | flowSequenceEnd
  | flowMappingStart
  | flowMappingEnd
  | blockEntry
  | flowEntry
  | key
  | value
  | reference (name : List Char)
  | anchor (name : List Char)
  | tag (handle : List Char) (suffix : Text)
  | scalar (value : List Char) (isPlain : Bool)
deriving DecidableEq

/-- A token and the line it starts on, counted from 0. -/
structure Token where
  kind : TokenKind
  line : Nat
deriving DecidableEq

/-- A place where a key may start: whether it still can, whether only a key
can stand there, the number of the token there, and where it is. -/
structure KeyPlace where
  isPossible : Bool := false
  isRequired : Bool := false
  number : Nat := 0
  mark : Mark := {}
deriving DecidableEq

namespace KeyPlace

/-- Whether what starts at a place is near enough to be a key. -/
def isNear (k : KeyPlace) (m : Mark) : Bool :=
  m.line ≤ k.mark.line && m.index ≤ k.mark.index + 1024

end KeyPlace

/-- The state of scanning. -/
structure Scanner where
  /-- The number of characters of the stream. -/
  size : Nat
  /-- What is to be read. -/
  rest : List Char
  cursor : Cursor := {}
  /-- The tokens that have been read and not been taken. -/
  queue : List Token := []
  /-- The number of tokens that have been taken. -/
  taken : Nat := 0
  /-- The indentation of the innermost block collection. -/
  indent : Int := -1
  /-- The indentations of those around it. -/
  outer : List Int := []
  /-- The place of a key for each level of flow collections, the innermost
  first. -/
  keys : List KeyPlace := [{}]
  /-- The levels of the keys that may start at tokens with the given
  numbers. -/
  keyLevels : List (Nat × Nat) := []
  /-- Whether a key may start here. -/
  keyAllowed : Bool := true

namespace Scanner

/-- Where the scanner is. -/
def mark (s : Scanner) : Mark := s.cursor.mark

/-- The number of flow collections that are open. -/
def flowLevel (s : Scanner) : Nat := s.keys.length - 1

/-- Whether a flow collection is open. -/
def inFlow (s : Scanner) : Bool := 0 < s.flowLevel

/-- The greatest number of collections inside each other. -/
def deepest : Nat := 10000

/-- Needs the next `n` characters. -/
def need (n : Nat) (s : Scanner) : Option Scanner :=
  (s.cursor.need n s.rest).map fun cursor => { s with cursor }

/-- Moves over `n` characters that end no line. -/
def advance : Nat → Scanner → Scanner
  | 0, s => s
  | n + 1, s => advance n { s with rest := s.rest.tail, cursor := s.cursor.next }

/-- Moves over characters of a kind, none of them a break. -/
def pass (kind : Char → Bool) (s : Scanner) : Option (List Char × Scanner) := do
  let (cs, cursor, rest) ← span kind s.cursor s.rest
  return (cs, { s with rest, cursor })

/-! ## The queue -/

/-- The number of the token that is read next. -/
def nextNumber (s : Scanner) : Nat := s.taken + s.queue.length

/-- Adds a token that starts at a mark. -/
def push (k : TokenKind) (m : Mark) (s : Scanner) : Scanner :=
  { s with queue := s.queue ++ [{ kind := k, line := m.line }] }

/-- Puts a token in front of the one with the given number, or at the end if
that has been taken. -/
def insert (number : Nat) (k : TokenKind) (m : Mark) (s : Scanner) : Scanner :=
  if number < s.taken then s.push k m
  else
    let n := number - s.taken
    { s with queue := s.queue.take n ++ { kind := k, line := m.line } :: s.queue.drop n }

/-- Adds a token of `n` characters. -/
def take (n : Nat) (k : TokenKind) (s : Scanner) : Scanner := (s.push k s.mark).advance n

/-! ## Indentation -/

/-- The collections that stay open at a column: the number of those closed,
the indentation of the innermost one left, and of those around it. -/
def unrolled (column : Int) : Int → List Int → Nat × Int × List Int
  | indent, [] => (0, indent, [])
  | indent, i :: is =>
    if indent > column then
      let (n, rest) := unrolled column i is
      (n + 1, rest)
    else (0, indent, i :: is)

/-- Closes the block collections that are indented more than a column. -/
def unroll (column : Int) (s : Scanner) : Scanner :=
  if s.inFlow then s
  else
    let (n, indent, outer) := unrolled column s.indent s.outer
    { s with
      indent, outer
      queue := s.queue ++ List.replicate n { kind := .blockEnd, line := s.mark.line } }

/-- Opens a block collection at a column, unless it is open.  Its first
token is put in front of the token with the given number. -/
def roll (column number : Nat) (k : TokenKind) (m : Mark) (s : Scanner) : Option Scanner :=
  if s.inFlow || (column : Int) ≤ s.indent then some s
  else if deepest ≤ s.outer.length then none
  else some { s.insert number k m with indent := column, outer := s.indent :: s.outer }

/-! ## Keys -/

/-- The place of a key on the level of the innermost flow collection. -/
def keyPlace (s : Scanner) : KeyPlace := s.keys.head?.getD {}

/-- Puts another place of a key on that level. -/
def setKeyPlace (k : KeyPlace) (s : Scanner) : Scanner := { s with keys := k :: s.keys.tail }

/-- Forgets that a key may start at the token with a number. -/
def forget (number : Nat) (s : Scanner) : Scanner :=
  { s with keyLevels := s.keyLevels.filter (·.1 ≠ number) }

/-- Forgets the place of a key.  If only a key could stand there, its colon
is missing. -/
def dropKey (s : Scanner) : Option Scanner :=
  let k := s.keyPlace
  if !k.isPossible then some s
  else if k.isRequired then none
  else some ((s.setKeyPlace { k with isPossible := false }).forget k.number)

/-- Remembers that a key may start here. -/
def saveKey (s : Scanner) : Option Scanner :=
  if !s.keyAllowed then some s
  else do
    let place : KeyPlace :=
      { isPossible := true, isRequired := !s.inFlow && s.indent = s.mark.column
        number := s.nextNumber, mark := s.mark }
    let s ← s.dropKey
    let s := (s.setKeyPlace place).forget place.number
    return { s with keyLevels := (place.number, s.flowLevel) :: s.keyLevels }

/-- Whether what starts at a place can be a key here.  A place that is too
far away is no longer one; if only a key could stand there, its colon is
missing. -/
def checkKey (k : KeyPlace) (s : Scanner) : Option (Bool × KeyPlace) :=
  if !k.isPossible then some (false, k)
  else if k.isNear s.mark then some (true, k)
  else if k.isRequired then none
  else some (false, { k with isPossible := false })

/-! ## Blanks and comments -/

/-- The greatest number of characters that are looked at in search of a
comment. -/
def longestPeek : Nat := 512

/-- Looks for a comment after blanks from the `n`th character on, and after
breaks too if `broken`.  Characters that cannot arrive are none. -/
def peekComment (broken : Bool) (here : List Char) (k : Cursor) : Nat → List Char → Cursor × Bool
  | _, [] => (k, false)
  | n, c :: rest =>
    if longestPeek ≤ n then (k, false)
    else
      match k.ask (n + 1) here with
      | (k, false) => (k, false)
      | (k, true) =>
        if c = '#' then (k, true)
        else if isBlank c || (broken && c = '\n') then peekComment broken here k (n + 1) rest
        else if broken && c = '\r' then peekComment broken here k (n + 2) rest
        else (k, false)

/-- Whether a comment follows after blanks, the scanner being at the end of
another one.  Of the breaks between them, only carriage returns and line
feeds are looked past. -/
def commentFollows (s : Scanner) : Scanner × Bool :=
  match s.rest with
  | c :: rest =>
    if c = '\n' || c = '\r' then
      let (cursor, found) :=
        peekComment true s.rest s.cursor (if c = '\r' then 2 else 1) rest
      ({ s with cursor }, found)
    else (s, false)
  | [] => (s, false)

/-- Moves over blanks and breaks. -/
def passBlankLines : Nat → Scanner → Option Scanner
  | 0, s => some s
  | fuel + 1, s => do
    let (_, s) ← s.pass isBlank
    match s.rest with
    | c :: rest =>
      if isBreak c then
        let cursor ← (← lineBreak c s.cursor rest).need 1 rest
        passBlankLines fuel { s with rest, cursor }
      else return s
    | [] => return s

/-- Moves over a comment and those that follow it, to the end of the line of
the last one. -/
def passComments : Nat → Scanner → Option Scanner
  | 0, s => some s
  | fuel + 1, s => do
    let (_, s) ← s.pass (!isBreak ·)
    match s.commentFollows with
    | (s, false) => return s
    | (s, true) =>
      let s ← s.passBlankLines (s.size + 1)
      passComments fuel s

/-- Moves over one character at the start of a line, if a byte order mark
came with the last portion. -/
def passMark (s : Scanner) : Scanner :=
  if s.mark.column = 0 && s.cursor.supply.isMarked then
    match s.rest with
    | [] => s
    | c :: rest =>
      { s with rest := if c = '\r' then '\n' :: rest else rest, cursor := s.cursor.next }
  else s

/-- Moves to the next token.  Tabs are blanks in a flow collection and where
no key may start.  After a break in a block a key may start. -/
def toToken : Nat → Scanner → Option Scanner
  | 0, s => some s
  | fuel + 1, s => do
    let s ← s.need 1
    let s ← s.passMark.need 1
    let (_, s) ← s.pass fun c => c = ' ' || ((s.inFlow || !s.keyAllowed) && c = '\t')
    let s ← if s.rest.head? = some '#' then s.passComments (s.size + 1) else some s
    match s.rest with
    | c :: rest =>
      if isBreak c then
        let cursor ← lineBreak c s.cursor rest
        toToken fuel { s with rest, cursor, keyAllowed := s.keyAllowed || !s.inFlow }
      else return s
    | [] => return s

/-- Moves over a comment on the line of the last token. -/
def passLineComment (s : Scanner) : Option Scanner :=
  match peekComment false s.rest s.cursor 0 s.rest with
  | (cursor, false) => some { s with cursor }
  | (cursor, true) => do
    let (_, s) ← { s with cursor }.pass (!isBreak ·)
    return s

/-! ## Directives, anchors and tags -/

/-- Reads blanks, before which a character is needed. -/
def passBlanks (s : Scanner) : Option Scanner := do
  let (_, s) ← (← s.need 1).pass isBlank
  return s

/-- Reads a number of one or two digits in a version. -/
def versionNumber (s : Scanner) : Option (Nat × Scanner) := do
  let (digits, s) ← (← s.need 1).pass Char.isDigit
  if digits.isEmpty || digits.length > 2 then none
  else return (digits.foldl (fun n c => n * 10 + (c.toNat - '0'.toNat)) 0, s)

/-- Reads a handle of tags: `!`, `!!`, or a name between two of them.
Otherwise what was read of it. -/
def tagHandle (s : Scanner) : Option (List Char × Scanner) := do
  let s ← s.need 1
  if s.rest.head? ≠ some '!' then none
  else
    let (word, s) ← (← (s.advance 1).need 1).pass isWordChar
    if s.rest.head? = some '!' then return ('!' :: word ++ ['!'], s.advance 1)
    else return ('!' :: word, s)

/-- Whether a character may stand in a tag as it is. -/
def isTagChar (c : Char) : Bool :=
  isWordChar c || c ∈ [';', '/', '?', ':', '@', '&', '=', '+', '$', ',', '.', '!', '~', '*',
    '\x27', '(', ')', '[', ']']

/-- The number of bytes that a byte announces when it starts a character. -/
def announced? (b : UInt8) : Option Nat :=
  if b < 0x80 then some 1
  else if b < 0xC0 then none
  else if b < 0xE0 then some 2
  else if b < 0xF0 then some 3
  else if b < 0xF8 then some 4
  else none

/-- Reads `n` bytes of a character, each written as a percent sign and two
hexadecimal digits; the first of them tells how many there are. -/
def escapedBytes : Nat → Option Nat → Scanner → Option (List UInt8 × Scanner)
  | 0, _, _ => none
  | fuel + 1, left, s => do
    let s ← s.need 3
    match s.rest with
    | '%' :: a :: b :: _ =>
      let byte := ((← hexValue? a) * 16 + (← hexValue? b)).toUInt8
      let more ← match left with
        | none => announced? byte
        | some n => if Text.isContinuation byte then some n else none
      let s := s.advance 3
      if more ≤ 1 then return ([byte], s)
      else
        let (bytes, s) ← escapedBytes fuel (some (more - 1)) s
        return (byte :: bytes, s)
    | _ => none

/-- Reads the bytes of the rest of a tag. -/
def tagBytes : Nat → Scanner → Option (List UInt8 × Scanner)
  | 0, _ => none
  | fuel + 1, s =>
    match s.rest with
    | [] => some ([], s)
    | c :: _ =>
      if isTagChar c then do
        let s ← (s.advance 1).need 1
        let (bytes, s) ← tagBytes fuel s
        return (c.toNat.toUInt8 :: bytes, s)
      else if c = '%' then do
        let (first, s) ← escapedBytes 4 none s
        let s ← s.need 1
        let (bytes, s) ← tagBytes fuel s
        return (first ++ bytes, s)
      else some ([], s)

/-- Reads the rest of a tag. -/
def tagRest (s : Scanner) : Option (Text × Scanner) := do
  let s ← s.need 1
  let (bytes, s) ← s.tagBytes (s.size + 1)
  return (Text.ofBytes bytes, s)

/-- Reads the kind of a directive, after its percent sign. -/
def directiveKind (s : Scanner) : Option (TokenKind × Scanner) := do
  let (name, s) ← (← s.need 1).pass isWordChar
  if !atWordEnd s.rest then none
  else if name = "YAML".toList then
    let (major, s) ← (← s.passBlanks).versionNumber
    if s.rest.head? ≠ some '.' then none
    else
      let (minor, s) ← (s.advance 1).versionNumber
      return (.version major minor, s)
  else if name = "TAG".toList then
    let (handle, s) ← (← s.passBlanks).tagHandle
    if handle ≠ ['!'] && (handle.length = 1 || handle.getLast? ≠ some '!') then none
    else
      let s ← s.need 1
      if !s.rest.head?.any isBlank then none
      else
        let (stem, s) ← (← s.passBlanks).tagRest
        let s ← s.need 1
        if stem.isEmpty || !atWordEnd s.rest then none else return (.tagHandle handle stem, s)
  else none

/-- Reads a directive. -/
def directive (s : Scanner) : Option Scanner := do
  let start := s.mark
  let (kind, s) ← (s.advance 1).directiveKind
  let (cursor, rest) ← restOfLine s.cursor s.rest
  return { s with rest, cursor }.push kind start

/-- Reads an anchor or a reference to one. -/
def anchor (kind : List Char → TokenKind) (s : Scanner) : Option Scanner := do
  let start := s.mark
  let (name, s) ← (← (s.advance 1).need 1).pass isWordChar
  let ends := atWordEnd s.rest ||
    s.rest.head?.any (· ∈ ['?', ':', ',', ']', '\x7d', '%', '@', Char.ofNat 0x60])
  if name.isEmpty || !ends then none else return s.push (kind name) start

/-- Reads the handle and the rest of a tag.  A tag in angle brackets has no
handle; the tag `!` is a rest without a handle. -/
def tagParts (s : Scanner) : Option (List Char × Text × Scanner) := do
  let s ← s.need 2
  match s.rest with
  | _ :: '<' :: _ =>
    let (suffix, s) ← (s.advance 2).tagRest
    if suffix.isEmpty || s.rest.head? ≠ some '>' then none else return ([], suffix, s.advance 1)
  | _ =>
    let (handle, s) ← s.tagHandle
    let (suffix, s) ← s.tagRest
    if handle.length > 1 && handle.getLast? = some '!' then
      if suffix.isEmpty then none else return (handle, suffix, s)
    else
      let suffix := handle.tail.map Glyph.char ++ suffix
      if suffix.isEmpty then return ([], [.char '!'], s) else return (['!'], suffix, s)

/-- Reads a tag. -/
def tag (s : Scanner) : Option Scanner := do
  let start := s.mark
  let (handle, suffix, s) ← s.tagParts
  let s ← s.need 1
  if atWordEnd s.rest then return s.push (.tag handle suffix) start else none

/-! ## Tokens -/

/-- Adds a scalar that was read from here. -/
def scalar (isPlain : Bool) (read : Option Scanned) (s : Scanner) : Option Scanner :=
  read.map fun r =>
    { s.push (.scalar r.value isPlain) s.mark with
      rest := r.rest, cursor := r.cursor, keyAllowed := s.keyAllowed || r.broken }

/-- Reads a token at the start of a line that belongs to no collection. -/
def outside (n : Nat) (k : TokenKind) (s : Scanner) : Option Scanner := do
  let s ← (s.unroll (-1)).dropKey
  return { s.take n k with keyAllowed := false }

/-- Reads the bracket that opens a flow collection. -/
def flowStart (k : TokenKind) (s : Scanner) : Option Scanner := do
  let s ← s.saveKey
  let place : KeyPlace := { number := s.nextNumber, mark := s.mark }
  if deepest ≤ s.flowLevel then none
  else return { s.take 1 k with keys := place :: s.keys, keyAllowed := true }

/-- Reads the bracket that closes a flow collection. -/
def flowEnd (k : TokenKind) (s : Scanner) : Option Scanner := do
  let s ← s.dropKey
  let s := if s.inFlow then { s.forget s.keyPlace.number with keys := s.keys.tail } else s
  return { s.take 1 k with keyAllowed := false }

/-- Reads the comma between the entries of a flow collection. -/
def flowEntry (s : Scanner) : Option Scanner := do
  let s ← s.dropKey
  return { s.take 1 .flowEntry with keyAllowed := true }

/-- Reads the dash in front of an entry of a block sequence. -/
def blockEntry (s : Scanner) : Option Scanner := do
  if !s.inFlow && !s.keyAllowed then none
  else
    let s ← s.roll s.mark.column s.nextNumber .blockSequenceStart s.mark
    let s ← s.dropKey
    return { s.take 1 .blockEntry with keyAllowed := true }

/-- Reads the question mark in front of a key. -/
def key (s : Scanner) : Option Scanner := do
  if !s.inFlow && !s.keyAllowed then none
  else
    let s ← s.roll s.mark.column s.nextNumber .blockMappingStart s.mark
    let s ← s.dropKey
    return { s.take 1 .key with keyAllowed := !s.inFlow }

/-- Reads the colon in front of a value.  If it ends a key that stands on
this line, the tokens of the key are put where that started. -/
def value (s : Scanner) : Option Scanner := do
  let (isKey, place) ← s.checkKey s.keyPlace
  if isKey then
    let s := s.insert place.number .key place.mark
    let s ← s.roll place.mark.column place.number .blockMappingStart place.mark
    let s := (s.setKeyPlace { place with isPossible := false }).forget place.number
    return { s.take 1 .value with keyAllowed := false }
  else
    let s := s.setKeyPlace place
    if !s.inFlow && !s.keyAllowed then none
    else
      let s ← s.roll s.mark.column s.nextNumber .blockMappingStart s.mark
      return { s.take 1 .value with keyAllowed := !s.inFlow }

/-- Remembers that a key may start here, and reads what may be one. -/
def keyed (read : Scanner → Option Scanner) (s : Scanner) : Option Scanner := do
  let s ← s.saveKey
  read { s with keyAllowed := false }

/-- Reads a block scalar. -/
def blockScalar (isLiteral : Bool) (s : Scanner) : Option Scanner := do
  let s ← s.dropKey
  { s with keyAllowed := true }.scalar false (block isLiteral s.indent s.cursor.next s.rest.tail)

/-- Whether a plain scalar can start with a character. -/
def startsPlain (inFlow : Bool) (c : Char) (rest : List Char) : Bool :=
  if c = '-' then !rest.head?.any isBlank
  else if c = '?' || c = ':' then !inFlow && !atWordEnd rest
  else !(isBlank c || c ∈ [',', '[', ']', '\x7b', '\x7d', '#', '&', '*', '!', '|', '>', '\x27',
    '"', '%', '@', Char.ofNat 0x60])

/-- Reads a token that starts with a character and does not concern the
document as a whole. -/
def inside (c : Char) (rest : List Char) (s : Scanner) : Option Scanner :=
  if c = '[' then s.flowStart .flowSequenceStart
  else if c = '\x7b' then s.flowStart .flowMappingStart
  else if c = ']' then s.flowEnd .flowSequenceEnd
  else if c = '\x7d' then s.flowEnd .flowMappingEnd
  else if c = ',' then s.flowEntry
  else if c = '-' && atWordEnd rest then s.blockEntry
  else if c = '?' && (s.inFlow || atWordEnd rest) then s.key
  else if c = ':' && (s.inFlow || atWordEnd rest) then s.value
  else if c = '*' then s.keyed (anchor .reference)
  else if c = '&' then s.keyed (anchor .anchor)
  else if c = '!' then s.keyed tag
  else if c = '|' && !s.inFlow then s.blockScalar true
  else if c = '>' && !s.inFlow then s.blockScalar false
  else if c = '\x27' then
    s.keyed fun s => s.scalar false (singleQuoted true s.cursor.next .none rest)
  else if c = '"' then
    s.keyed fun s => s.scalar false (doubleQuoted true s.cursor.next .none .outside rest)
  else if startsPlain s.inFlow c rest then
    s.keyed fun s =>
      s.scalar true (plain s.inFlow (s.indent + 1).toNat true s.cursor .none s.rest)
  else none

/-- Whether a comment on the line of the last token is passed over with it. -/
def passesComment (s : Scanner) : Bool :=
  match s.queue.getLast? with
  | some { kind := .blockEntry, .. } => false
  | some { kind := .scalar _ _, .. } => !s.keyAllowed
  | _ => true

/-- Ends the line at the end of a stream. -/
def endLine (s : Scanner) : Scanner :=
  if s.mark.column = 0 then s
  else
    { s with
      cursor := { s.cursor with mark := { s.mark with line := s.mark.line + 1, column := 0 } } }

/-- Reads the next token, and those that its place brings about. -/
def fetch (s : Scanner) : Option Scanner := do
  let s ← s.toToken (s.size + 1)
  let s ← (s.unroll s.mark.column).need 4
  match s.rest with
  | [] => s.endLine.outside 0 .streamEnd
  | c :: rest =>
    if s.mark.column = 0 && c = '%' then do
      let s ← (s.unroll (-1)).dropKey
      { s with keyAllowed := false }.directive
    else if atDocumentIndicator s.mark s.rest then
      s.outside 3 (if c = '-' then .documentStart else .documentEnd)
    else do
      let s ← s.inside c rest
      if s.passesComment then s.passLineComment else return s

/-- Whether the first token in the queue may start a key, so that more has to
be read before it is taken. -/
def awaitsKey (s : Scanner) : Option (Bool × Scanner) :=
  match s.keyLevels.lookup s.taken with
  | none => some (false, s)
  | some level =>
    if s.flowLevel < level then some (false, s)
    else do
      let i := s.flowLevel - level
      let (isKey, place) ← s.checkKey (s.keys[i]?.getD {})
      return (isKey, { s with keys := s.keys.set i place })

/-- Reads tokens until the first one in the queue can be taken. -/
def fill : Nat → Scanner → Option Scanner
  | 0, _ => none
  | fuel + 1, s =>
    if s.queue.length ≤ 2 then do
      let s ← s.fetch
      fill fuel s
    else
      match s.awaitsKey with
      | none => none
      | some (false, s) => some s
      | some (true, s) => do
        let s ← s.fetch
        fill fuel s

/-- Takes the next token. -/
def next (s : Scanner) : Option (Token × Scanner) := do
  let s ← s.fill (s.size + 4)
  match s.queue with
  | [] => none
  | t :: queue => return (t, { s with queue, taken := s.taken + 1 })

end Scanner

/-- Takes tokens up to the end of the stream, at most `fuel` of them. -/
def tokensFrom : Nat → Scanner → List Token
  | 0, _ => []
  | fuel + 1, s =>
    match s.next with
    | none => []
    | some (t, s) => if t.kind = .streamEnd then [t] else t :: tokensFrom fuel s

/-- The tokens that can be taken from a stream.  The last one is its end,
unless there is a place that starts no token.  A character brings about four
tokens at most, so all tokens are taken. -/
def tokens (source : Source) : List Token :=
  let cursor : Cursor := { supply := source.supply }
  match cursor.need 1 source.chars with
  | none => []
  | some cursor =>
    let start : Scanner :=
      { size := source.chars.length, rest := source.chars, cursor
        queue := [{ kind := .streamStart, line := 0 }] }
    tokensFrom (4 * start.size + 4) start

end Sequitur.Yaml
