import Sequitur.Yaml.Token
import Sequitur.Yaml.Value

/-!
# Sequitur.Yaml.Node

The nodes of a YAML document: scalars, sequences, mappings, and references to
nodes with an anchor.  Every node has a tag.  One that is not written is
`!!str` for a scalar in quotes or a block, and follows from its text for a
plain scalar.

A node is read from the tokens of a stream by recursive descent.  Only the
first document is read, with the token after it.

A reference may stand inside of the node that it refers to.  So nodes with
an anchor have numbers, by which references know them, and a document comes
with the list of these nodes.
-/

namespace Sequitur.Yaml

/-- A node, and the line it starts on, counted from 1. -/
inductive Node where
  | scalar (line : Nat) (tag : Text) (value : String)
  | sequence (line : Nat) (tag : Text) (items : List Node)
  | mapping (line : Nat) (tag : Text) (entries : List (Node × Node))
  /-- Another node, known by a name.  The reference has a number of its own,
  and the node it stands for has the number `target`. -/
  | reference (line : Nat) (name : String) (number target : Nat)

namespace Node

/-- The line of a node. -/
def line : Node → Nat
  | scalar n _ _ => n
  | sequence n _ _ => n
  | mapping n _ _ => n
  | reference n _ _ _ => n

/-- The word by which a key is compared with the others of a mapping. -/
def word : Node → String
  | scalar _ _ v => v
  | reference _ name _ _ => name
  | _ => ""

/-- The kind of a node as a number. -/
def kind : Node → Nat
  | scalar .. => 0
  | sequence .. => 1
  | mapping .. => 2
  | reference .. => 3

/-- The number of nodes. -/
def size : Node → Nat
  | scalar .. => 1
  | sequence _ _ items => 1 + sizes items
  | mapping _ _ entries => 1 + pairSizes entries
  | reference .. => 1
where
  /-- The number of nodes of a list. -/
  sizes : List Node → Nat
    | [] => 0
    | n :: ns => n.size + sizes ns
  /-- The number of nodes of a list of entries. -/
  pairSizes : List (Node × Node) → Nat
    | [] => 0
    | (k, v) :: rest => k.size + v.size + pairSizes rest

end Node

/-! ## Tags -/

/-- The stem of the tags that the format itself defines. -/
def standardStem : Text := Text.ofString "tag:yaml.org,2002:"

/-- A tag that the format defines is written with two marks in front. -/
def shortTag (t : Text) : Text :=
  if standardStem.isPrefixOf t then Text.ofString "!!" ++ t.drop standardStem.length else t

/-- The tag of a node, given what is written and the one it has otherwise. -/
def effectiveTag (written : Text) (otherwise : String) : Text :=
  if written.isEmpty || written = [.char '!'] then Text.ofString otherwise else shortTag written

/-- The tag of a key that takes over the entries of other mappings. -/
def mergeTag : String := "!!merge"

/-- The tag of a sequence. -/
def sequenceTag : String := "!!seq"

/-- The tag of a mapping. -/
def mappingTag : String := "!!map"

/-- The tag of a scalar. -/
def scalarTag (written : Text) (isPlain : Bool) (value : String) : Text :=
  effectiveTag written <|
    if !isPlain then Value.text.tag
    else if value = "<<" then mergeTag
    else (Value.ofText true value).tag

/-! ## Reading -/

/-- What is left of the tokens, what the handles of tags stand for, the
numbers of anchors, the latest first, the nodes with these numbers, and how
many numbers have been given. -/
structure Feed where
  tokens : List Token
  handles : List (List Char × Text)
  anchors : List (List Char × Nat) := []
  anchored : List (Nat × Node) := []
  count : Nat := 0

/-- A reader, which may fail. -/
abbrev Reader := StateT Feed Option

namespace Reader

/-- The next token. -/
def peek : Reader Token := fun f => f.tokens.head?.map fun t => (t, f)

/-- Drops the next token. -/
def drop : Reader Unit := fun f => some ((), { f with tokens := f.tokens.tail })

/-- Refuses the stream. -/
def refuse {α : Type} : Reader α := fun _ => none

/-- A fresh number. -/
def fresh : Reader Nat := fun f => some (f.count, { f with count := f.count + 1 })

/-- Gives a node with an anchor a number, before it is read. -/
def announce (anchor : List Char) : Reader (Option Nat) := do
  if anchor.isEmpty then return none
  else
    let n ← fresh
    modify fun f => { f with anchors := (anchor, n) :: f.anchors }
    return some n

/-- Stores a node under its number, if it has one. -/
def stored (number : Option Nat) (n : Node) : Reader Node := do
  match number with
  | none => return n
  | some i =>
    modify fun f => { f with anchored := (i, n) :: f.anchored }
    return n

/-- The number of an anchor. -/
def target (anchor : List Char) : Reader Nat := fun f => (f.anchors.lookup anchor).map (·, f)

/-- An anchor, if it comes next. -/
def anchor? : Reader (List Char) := do
  match (← peek).kind with
  | .anchor name => drop; return name
  | _ => return []

/-- A tag with its handle replaced by what that stands for, if one comes
next. -/
def tag? : Reader Text := do
  match (← peek).kind with
  | .tag handle suffix =>
    drop
    if handle.isEmpty then return suffix
    else
      match (← get).handles.lookup handle with
      | some stem => return stem ++ suffix
      | none => refuse
  | _ => return []

/-- The anchor and the tag of a node, in any order. -/
def properties : Reader (List Char × Text) := do
  let anchor ← anchor?
  let tag ← tag?
  if anchor.isEmpty then return (← anchor?, tag) else return (anchor, tag)

/-- The empty scalar. -/
def empty (line : Nat) : Node := .scalar (line + 1) (Text.ofString Value.null.tag) ""

/-- A node of which only an anchor or a tag is written. -/
def bare (line : Nat) (anchor : List Char) (tag : Text) : Reader Node := do
  if anchor.isEmpty && tag.isEmpty then refuse
  else stored (← announce anchor) (.scalar line (scalarTag tag true "") "")

mutual

/-- Reads a node.  A block collection is one only if `inBlock`, and a list
of entries that is not indented only if `indentless`. -/
def node : Nat → Bool → Bool → Reader Node
  | 0, _, _ => refuse
  | fuel + 1, inBlock, indentless => do
    let start ← peek
    let line := start.line + 1
    match start.kind with
    | .reference name =>
      drop
      return .reference line (String.ofList name) (← fresh) (← target name)
    | _ =>
      let (anchor, tag) ← properties
      let t ← peek
      let asSequence (read : Reader (List Node)) : Reader Node := do
        let number ← announce anchor
        stored number (.sequence line (effectiveTag tag sequenceTag) (← read))
      let asMapping (read : Reader (List (Node × Node))) : Reader Node := do
        let number ← announce anchor
        stored number (.mapping line (effectiveTag tag mappingTag) (← read))
      match t.kind with
      | .blockEntry => if indentless then asSequence (indentlessItems fuel) else refuse
      | .scalar value isPlain =>
        drop
        let text := String.ofList value
        stored (← announce anchor) (.scalar line (scalarTag tag isPlain text) text)
      | .flowSequenceStart => drop; asSequence (flowItems fuel true)
      | .flowMappingStart => drop; asMapping (flowEntries fuel true)
      | .blockSequenceStart =>
        if inBlock then drop; asSequence (blockItems fuel) else bare line anchor tag
      | .blockMappingStart =>
        if inBlock then drop; asMapping (blockEntries fuel) else bare line anchor tag
      | _ => bare line anchor tag

/-- Reads the items of a block sequence. -/
def blockItems : Nat → Reader (List Node)
  | 0 => refuse
  | fuel + 1 => do
    let t ← peek
    match t.kind with
    | .blockEntry =>
      drop
      let n ← match (← peek).kind with
        | .blockEntry => pure (empty t.line)
        | .blockEnd => pure (empty t.line)
        | _ => node fuel true false
      return n :: (← blockItems fuel)
    | .blockEnd => drop; return []
    | _ => refuse

/-- Reads the items of a list of entries that is not indented. -/
def indentlessItems : Nat → Reader (List Node)
  | 0 => refuse
  | fuel + 1 => do
    let t ← peek
    match t.kind with
    | .blockEntry =>
      drop
      let n ← match (← peek).kind with
        | .blockEntry => pure (empty t.line)
        | .key => pure (empty t.line)
        | .value => pure (empty t.line)
        | .blockEnd => pure (empty t.line)
        | _ => node fuel true false
      return n :: (← indentlessItems fuel)
    | _ => return []

/-- Reads the key or the value of an entry of a block mapping, which may be
left out. -/
def blockPart : Nat → Nat → Reader Node
  | 0, _ => refuse
  | fuel + 1, line => do
    match (← peek).kind with
    | .key => return empty line
    | .value => return empty line
    | .blockEnd => return empty line
    | _ => node fuel true true

/-- Reads the entries of a block mapping. -/
def blockEntries : Nat → Reader (List (Node × Node))
  | 0 => refuse
  | fuel + 1 => do
    let t ← peek
    match t.kind with
    | .key =>
      drop
      let k ← blockPart fuel t.line
      let colon ← peek
      let v ← match colon.kind with
        | .value => do drop; blockPart fuel colon.line
        | _ => pure (empty colon.line)
      return (k, v) :: (← blockEntries fuel)
    | .blockEnd => drop; return []
    | _ => refuse

/-- Reads the items of a flow sequence, the first one or those after it. -/
def flowItems : Nat → Bool → Reader (List Node)
  | 0, _ => refuse
  | fuel + 1, isFirst => do
    match (← peek).kind with
    | .flowSequenceEnd => drop; return []
    | k =>
      if !isFirst then
        if k = .flowEntry then drop else refuse
      let t ← peek
      match t.kind with
      | .flowSequenceEnd => drop; return []
      | .key =>
        drop
        let k ← flowKey fuel
        let colon ← peek
        let v ← match colon.kind with
          | .value => do drop; flowPart fuel false colon.line
          | _ => pure (empty colon.line)
        let n := .mapping (t.line + 1) (Text.ofString mappingTag) [(k, v)]
        return n :: (← flowItems fuel false)
      | _ =>
        let n ← node fuel false false
        return n :: (← flowItems fuel false)

/-- Reads the key of an entry that stands alone in a flow sequence.  If it
is left out, the token in its place is passed over. -/
def flowKey : Nat → Reader Node
  | 0 => refuse
  | fuel + 1 => do
    let t ← peek
    match t.kind with
    | .value => drop; return empty t.line
    | .flowEntry => drop; return empty t.line
    | .flowSequenceEnd => drop; return empty t.line
    | _ => node fuel false false

/-- Reads a value in a flow collection, which may be left out. -/
def flowPart : Nat → Bool → Nat → Reader Node
  | 0, _, _ => refuse
  | fuel + 1, inMapping, line => do
    match (← peek).kind with
    | .flowEntry => return empty line
    | .flowSequenceEnd => if inMapping then node fuel false false else return empty line
    | .flowMappingEnd => if inMapping then return empty line else node fuel false false
    | _ => node fuel false false

/-- Reads the entries of a flow mapping, the first one or those after it. -/
def flowEntries : Nat → Bool → Reader (List (Node × Node))
  | 0, _ => refuse
  | fuel + 1, isFirst => do
    match (← peek).kind with
    | .flowMappingEnd => drop; return []
    | k =>
      if !isFirst then
        if k = .flowEntry then drop else refuse
      match (← peek).kind with
      | .flowMappingEnd => drop; return []
      | .key =>
        drop
        let t ← peek
        let k ← match t.kind with
          | .value => pure (empty t.line)
          | _ => flowPart fuel true t.line
        let colon ← peek
        let v ← match colon.kind with
          | .value => do drop; flowPart fuel true colon.line
          | _ => pure (empty colon.line)
        return (k, v) :: (← flowEntries fuel false)
      | _ =>
        let k ← node fuel false false
        let t ← peek
        return (k, empty t.line) :: (← flowEntries fuel false)

end

/-! ## Documents -/

/-- The handles of tags that are known without a directive. -/
def knownHandles : List (List Char × Text) :=
  [(['!'], [.char '!']), (['!', '!'], standardStem)]

/-- Reads the directives of a document: the version, which is given once at
most and is 1.1, and handles of tags, each given once at most. -/
def directives (versioned : Bool) (handles : List (List Char × Text)) :
    List Token → Option (List (List Char × Text) × List Token)
  | { kind := .version major minor, .. } :: rest =>
    if versioned || major ≠ 1 || minor ≠ 1 then none else directives true handles rest
  | { kind := .tagHandle handle stem, .. } :: rest =>
    if (handles.lookup handle).isSome then none
    else directives versioned (handles ++ [(handle, stem)]) rest
  | rest => some (handles, rest)

/-- The node of a document, or the empty scalar if there is none. -/
def content (fuel : Nat) : Reader Node := do
  let t ← peek
  match t.kind with
  | .version _ _ => return empty t.line
  | .tagHandle _ _ => return empty t.line
  | .documentStart => return empty t.line
  | .documentEnd => return empty t.line
  | .streamEnd => return empty t.line
  | _ => node fuel true false

/-- Reads the first document from its tokens. -/
def document (tokens : List Token) : Option (Node × Feed) := do
  let fuel := 4 * tokens.length + 16
  let isExplicit := match tokens with
    | { kind := .version _ _, .. } :: _ => true
    | { kind := .tagHandle _ _, .. } :: _ => true
    | { kind := .documentStart, .. } :: _ => true
    | _ => false
  if isExplicit then
    let (handles, rest) ← directives false [] tokens
    match rest with
    | { kind := .documentStart, .. } :: rest =>
      let known := handles ++ knownHandles.filter fun h => (handles.lookup h.1).isNone
      content fuel { tokens := rest, handles := known }
    | _ => none
  else node fuel true false { tokens, handles := knownHandles }

end Reader

/-- A document: its node, and the nodes with an anchor, with their numbers. -/
structure Document where
  root : Node
  anchored : List (Nat × Node) := []

namespace Document

/-- The node that a reference stands for, or the node itself. -/
def resolved (d : Document) : Node → Option Node
  | .reference _ _ _ target => d.anchored.lookup target
  | n => some n

/-- Reads the first document of a stream; there may be none. -/
def read? (t : Text) : Option (Option Document) :=
  match tokens (Source.ofText t) with
  | { kind := .streamStart, .. } :: { kind := .streamEnd, .. } :: _ => some none
  | { kind := .streamStart, .. } :: rest =>
    match Reader.document rest with
    | some (root, { tokens := _ :: _, anchored, .. }) => some (some { root, anchored })
    | _ => none
  | _ => none

end Document

end Sequitur.Yaml
