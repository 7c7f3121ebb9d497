import Sequitur.Settings.Basic
import Sequitur.Text.Base64
import Sequitur.Yaml.Node

/-!
# Sequitur.Settings.Reader

Reading settings from a YAML document.

A field that is missing or null keeps its default.  A field that is unknown,
has a value of the wrong type or is given twice is a fault; all faults of a
document are reported, in its order.  A mapping may take over the entries
of others under the key `<<`, except those it has itself.

A reference stands for the node it refers to, unless it comes up while that
node is being read through it.  A document which consists of little else
than such repetitions is refused.
-/

namespace Sequitur

/-- What a node of a document is read as. -/
inductive Shape where
  | settings
  | style
  | log
  | text
  | flag
deriving DecidableEq

/-- The name of a shape in messages. -/
def Shape.name : Shape → String
  | settings => "config.Config"
  | style => "config.StyleConfig"
  | log => "config.LogConfig"
  | text => "string"
  | flag => "bool"

/-- A part of a document that does not fit. -/
inductive DocumentFault where
  /-- A field that its mapping does not have. -/
  | unknown (line : Nat) (field : Text) (shape : Shape)
  /-- A field that is given twice in different ways. -/
  | repeated (line : Nat) (field : Text) (shape : Shape)
  /-- A key that its mapping already has. -/
  | duplicate (line : Nat) (key : String) (first : Nat)
  /-- A node of another type, with its tag and its text. -/
  | mistyped (line : Nat) (tag : Text) (value : String) (shape : Shape)
deriving DecidableEq

namespace DocumentFault

/-- The first `n` bytes of a text; those of a character that is cut show as
U+FFFD. -/
def firstBytes : Nat → List Char → List Char
  | 0, _ => []
  | _ + 1, [] => []
  | n + 1, c :: rest =>
    if c.utf8Size ≤ n + 1 then c :: firstBytes (n + 1 - c.utf8Size) rest
    else List.replicate (n + 1) '�'

/-- A text of ten bytes at most, or the start of a longer one. -/
def clipped (s : String) : String :=
  if s.utf8ByteSize ≤ 10 then s else String.ofList (firstBytes 7 s.toList) ++ "..."

/-- The text of a node as it stands after its tag; bare after the tag of a
collection, which has no text as a rule. -/
def shownValue (tag : Text) (value : String) : String :=
  if tag = Text.ofString Yaml.sequenceTag || tag = Text.ofString Yaml.mappingTag then value
  else " `" ++ clipped value ++ "`"

/-- The message of a fault. -/
def message : DocumentFault → String
  | unknown line field shape =>
    "line " ++ toString line ++ ": field " ++ field.shown ++ " not found in type " ++ shape.name
  | repeated line field shape =>
    "line " ++ toString line ++ ": field " ++ field.shown ++ " already set in type " ++ shape.name
  | duplicate line key first =>
    "line " ++ toString line ++ ": mapping key " ++ quoted key ++ " already defined at line " ++
      toString first
  | mistyped line tag value shape =>
    "line " ++ toString line ++ ": cannot unmarshal " ++ tag.shown ++ shownValue tag value ++
      " into " ++ shape.name

end DocumentFault

/-- Why settings cannot be read. -/
inductive SettingsError where
  /-- The text is no YAML document. -/
  | malformed
  /-- Parts of the document do not fit. -/
  | unfit (faults : List DocumentFault)
  /-- A name is unknown. -/
  | invalid (fault : SettingsFault)
deriving DecidableEq

/-- The message of an error. -/
def SettingsError.message : SettingsError → String
  | malformed => "could not parse config: yaml: malformed document"
  | unfit faults =>
    "could not parse config: yaml: unmarshal errors:" ++
      String.join (faults.map fun f => "\n  " ++ f.message)
  | invalid fault => fault.message

namespace SettingsReader

/-! ## Progress -/

/-- What has been read so far. -/
structure Progress where
  draft : SettingsDraft := {}
  faults : List DocumentFault := []
  /-- The number of nodes that have been read. -/
  visits : Nat := 0
  /-- The number of those that were read through a reference. -/
  repetitions : Nat := 0

namespace Progress

/-- Adds faults. -/
def report (faults : List DocumentFault) (p : Progress) : Progress :=
  { p with faults := p.faults ++ faults }

/-- Whether too many nodes were read through references: more than 99 in 100
and, from 400000 nodes on, fewer and fewer down to 1 in 10. -/
def isExcessive (p : Progress) : Bool :=
  100 < p.repetitions && 1000 < p.visits &&
    if p.visits ≤ 400000 then 99 * p.visits < 100 * p.repetitions
    else if 4000000 ≤ p.visits then p.visits < 10 * p.repetitions
    else
      p.visits * (99 * 3600000 - 89 * (p.visits - 400000)) < 100 * 3600000 * p.repetitions

/-- Counts a node that is read. -/
def visit (repeats : Bool) (p : Progress) : Option Progress :=
  let p :=
    { p with
      visits := p.visits + 1
      repetitions := if repeats then p.repetitions + 1 else p.repetitions }
  if p.isExcessive then none else some p

end Progress

/-- Where a reader is: the document, and the references it has come through. -/
structure Place where
  document : Yaml.Document
  through : List Nat := []

/-- A reader of a node, which may refuse the whole document. -/
abbrev Step := Place → Yaml.Node → Progress → Option Progress

/-- Goes to the node that a reference stands for, or to the node itself. -/
def enter (place : Place) (n : Yaml.Node) (p : Progress) :
    Option (Place × Yaml.Node × Progress) := do
  let p ← p.visit !place.through.isEmpty
  match n with
  | .reference _ _ number _ =>
    if number ∈ place.through then none
    else
      let target ← place.document.resolved n
      let p ← p.visit true
      return ({ place with through := number :: place.through }, target, p)
  | n => return (place, n, p)

/-! ## Scalars -/

/-- What a scalar means. -/
inductive Meaning where
  | null
  | bool (b : Bool)
  | text (t : Text)
  /-- A number or a date. -/
  | other
deriving DecidableEq

/-- The meaning of a value that is resolved. -/
def Meaning.ofValue (value : String) : Yaml.Value → Meaning
  | .null => .null
  | .bool b => .bool b
  | .text => .text (Text.ofString value)
  | _ => .other

/-- What a scalar with a tag means.  A tag of the format has to go with the
value; under any other tag the value is a text. -/
def meaning? (tag : Text) (value : String) : Option Meaning :=
  let text := Text.ofString value
  match [Yaml.Value.null, .bool true, .int, .float, .timestamp].find? fun v =>
      Text.ofString v.tag = tag with
  | some wanted =>
    let v := Yaml.Value.ofText (wanted = .timestamp) value
    if v.tag = wanted.tag || (wanted = .float && v = .int) then some (.ofValue value v) else none
  | none =>
    if tag = Text.ofString "!!binary" then
      (Base64.decode? (value.toList.filter fun c => c ≠ '\n' && c ≠ '\r')).map fun bs =>
        .text (Text.ofBytes bs)
    else some (.text text)

/-- The keys of a mapping that it already has. -/
def duplicates : List (Yaml.Node × Yaml.Node) → List DocumentFault
  | [] => []
  | (k, _) :: rest =>
    (rest.filterMap fun (l, _) =>
        if k.kind = l.kind && k.word = l.word then some (.duplicate l.line l.word k.line)
        else none) ++
      duplicates rest

/-- The faults of a collection that stands for something else. -/
def collectionFaults (shape : Shape) : Yaml.Node → List DocumentFault
  | .sequence line tag _ => [.mistyped line tag "" shape]
  | .mapping line tag entries =>
    match duplicates entries with
    | [] => [.mistyped line tag "" shape]
    | faults => faults
  | _ => []

/-- Reads a node as a string, if it is not null. -/
def text? (place : Place) (n : Yaml.Node) (p : Progress) : Option (Option Text × Progress) := do
  let (_, n, p) ← enter place n p
  match n with
  | .scalar _ tag value =>
    match ← meaning? tag value with
    | .null => return (none, p)
    | .text t => return (some t, p)
    | _ => return (some (Text.ofString value), p)
  | n => return (none, p.report (collectionFaults .text n))

/-- The words for booleans beside `true` and `false`. -/
def flagWord? (t : Text) : Option Bool :=
  let isAmong (words : List String) : Bool := words.any fun w => Text.ofString w = t
  if isAmong ["y", "Y", "yes", "Yes", "YES", "on", "On", "ON"] then some true
  else if isAmong ["n", "N", "no", "No", "NO", "off", "Off", "OFF"] then some false
  else none

/-- Reads a field that is a string. -/
def text (set : Text → SettingsDraft → SettingsDraft) : Step := fun place n p => do
  match ← text? place n p with
  | (none, p) => return p
  | (some t, p) => return { p with draft := set t p.draft }

/-- Reads a field that is a boolean. -/
def flag (set : Bool → SettingsDraft → SettingsDraft) : Step := fun place n p => do
  let (_, n, p) ← enter place n p
  match n with
  | .scalar line tag value =>
    let fault := DocumentFault.mistyped line tag value .flag
    match ← meaning? tag value with
    | .null => return p
    | .bool b => return { p with draft := set b p.draft }
    | .text t =>
      match flagWord? t with
      | some b => return { p with draft := set b p.draft }
      | none => return p.report [fault]
    | .other => return p.report [fault]
  | n => return p.report (collectionFaults .flag n)

/-! ## Mappings -/

/-- A mapping with known fields. -/
structure Record where
  shape : Shape
  fields : List (String × Step)

/-- The reader of a field. -/
def Record.field? (r : Record) (name : Text) : Option Step :=
  r.fields.findSome? fun (field, step) => if Text.ofString field = name then some step else none

/-- What is left of a mapping after its own entries: the names that entries
taken over may not have, and the value of the key `<<`. -/
structure Leftover where
  taken : Option (List Text)
  merged : Option Yaml.Node := none

/-- Whether a key takes over the entries of other mappings. -/
def isMerge : Yaml.Node → Bool
  | .scalar _ tag value => value = "<<" && tag = Text.ofString Yaml.mergeTag
  | _ => false

/-- Reads the entries of a mapping, given the fields that have been set. -/
def entries (r : Record) (place : Place) (set : List Text) (left : Leftover) :
    List (Yaml.Node × Yaml.Node) → Progress → Option (Leftover × Progress)
  | [], p => some (left, p)
  | (k, v) :: rest, p =>
    if isMerge k then entries r place set { left with merged := some v } rest p
    else
      match text? place k p with
      | none => none
      | some (none, p) => entries r place set left rest p
      | some (some name, p) =>
        if left.taken.any (name ∈ ·) then entries r place set left rest p
        else
          let left := { left with taken := left.taken.map (name :: ·) }
          match r.field? name with
          | none => entries r place set left rest (p.report [.unknown k.line name r.shape])
          | some step =>
            if name ∈ set then
              entries r place set left rest (p.report [.repeated k.line name r.shape])
            else
              match step place v p with
              | none => none
              | some p => entries r place (name :: set) left rest p

/-- The names of the keys of a mapping, of those that are texts. -/
def names (place : Place) : List (Yaml.Node × Yaml.Node) → Progress → Option (List Text × Progress)
  | [], p => some ([], p)
  | (k, _) :: rest, p => do
    let (_, k, p) ← enter place k p
    let (ts, p) ← names place rest p
    match k with
    | .scalar _ tag value =>
      match ← meaning? tag value with
      | .text t => return (t :: ts, p)
      | _ => return (ts, p)
    | _ => return (ts, p)

/-- Whether a node is a mapping, or stands for one. -/
def isMapping (d : Yaml.Document) (n : Yaml.Node) : Bool :=
  match d.resolved n with
  | some (.mapping _ _ _) => true
  | _ => false

/-- The mappings whose entries are taken over: one, or a list of them. -/
def sources (n : Yaml.Node) : List Yaml.Node :=
  match n with
  | .sequence _ _ items => items
  | n => [n]

/-- Reads one mapping after the other. -/
def each (d : Yaml.Document)
    (read : Yaml.Node → Option (List Text) → Progress → Option (Option (List Text) × Progress)) :
    List Yaml.Node → Option (List Text) → Progress → Option (Option (List Text) × Progress)
  | [], taken, p => some (taken, p)
  | n :: ns, taken, p =>
    if isMapping d n then
      match read n taken p with
      | none => none
      | some (taken, p) => each d read ns taken p
    else none

/-- Reads a mapping.  If `taken` is given, its entries are taken over by
another mapping that has the names in it. -/
def record (r : Record) :
    Nat → Place → Yaml.Node → Option (List Text) → Progress →
      Option (Option (List Text) × Progress)
  | 0, _, _, _, _ => none
  | fuel + 1, place, n, taken, p => do
    let (place, n, p) ← enter place n p
    match n with
    | .scalar line tag value =>
      match ← meaning? tag value with
      | .null => return (taken, p)
      | _ => return (taken, p.report [.mistyped line tag value r.shape])
    | .mapping _ _ es =>
      match duplicates es with
      | [] =>
        let (left, p) ← entries r place [] { taken } es p
        match left.merged with
        | none => return (left.taken, p)
        | some m =>
          let (avoided, p) ← match left.taken with
            | some ts => some (ts, p)
            | none => names place es p
          let (now, p) ← each place.document (record r fuel place) (sources m) (some avoided) p
          return (if taken.isSome then now else none, p)
      | faults => return (taken, p.report faults)
    | n => return (taken, p.report (collectionFaults r.shape n))

/-- Reads a field that is a mapping.  References inside each other are never
more than there are nodes, and neither are nodes without a reference between
them. -/
def nested (r : Record) : Step := fun place n p =>
  let size := place.document.root.size + 1
  (record r (size * size) place n none p).map Prod.snd

/-- The fields of the style. -/
def style : Record where
  shape := .style
  fields :=
    [("unicode", flag fun b d => { d with unicode := b }),
      ("negation", flag fun b d => { d with negation := b }),
      ("highlight", text fun t d => { d with highlight := t }),
      ("emphasis", flag fun b d => { d with emphasis := b })]

/-- The fields of the log. -/
def log : Record where
  shape := .log
  fields :=
    [("level", text fun t d => { d with level := t }),
      ("file", text fun t d => { d with file := t }),
      ("json", flag fun b d => { d with json := b })]

/-- The fields of a document. -/
def settings : Record where
  shape := .settings
  fields := [("style", nested style), ("log", nested log)]

end SettingsReader

/-- Reads settings as they are written in a document. -/
def SettingsDraft.read (t : Text) : Except SettingsError SettingsDraft :=
  match Yaml.Document.read? t with
  | none => .error .malformed
  | some none => .ok {}
  | some (some document) =>
    -- The document counts as a node of its own.
    let start : SettingsReader.Progress := { visits := 1 }
    match SettingsReader.nested SettingsReader.settings { document } document.root start with
    | none => .error .malformed
    | some { draft, faults := [], .. } => .ok draft
    | some { faults, .. } => .error (.unfit faults)

/-- Reads settings from a document. -/
def Settings.read (t : Text) : Except SettingsError Settings := do
  let draft ← SettingsDraft.read t
  draft.check.mapError .invalid

end Sequitur
