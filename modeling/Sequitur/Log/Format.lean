import Sequitur.Text.Blank
import Sequitur.Text.Quoted
import Sequitur.Log.Record

/-!
# Sequitur.Log.Format

The two formats of a log line.  In the plain format a record is a line of
`key=value` pairs, level and message first, where keys and values are
quoted if they would be misread otherwise.  In the JSON format it is an
object, a group being an object inside it.
-/

namespace Sequitur

namespace Log

/-! ## Plain lines -/

/-- Whether a glyph makes quotes necessary. -/
def needsQuotes : Glyph → Bool
  | .stray _ => true
  | .char c =>
    if c.toNat < 0x80 then c.toNat < 0x20 || c = ' ' || c = '=' || c = '"'
    else c = '�' || isBlankChar c || !isPrintable c

/-- Whether a text would be misread without quotes. -/
def isMisread (t : Text) : Bool := t.isEmpty || t.any needsQuotes

/-- A text, quoted if it would be misread. -/
def plainText (t : Text) : String := if isMisread t then t.quoted else t.shown

/-- A key within a group, the two joined by a point.  It is quoted if either
of them would be misread, so an empty key is seen. -/
def plainKey (group key : Text) : String :=
  if group.isEmpty then plainText key
  else if isMisread group || isMisread key then (group ++ .char '.' :: key).quoted
  else group.shown ++ "." ++ key.shown

/-- A value in a plain line. -/
def plainValue : LogValue → String
  | .text t => plainText t
  | .number n => toString n
  | .flag b => if b then "true" else "false"

/-- Attributes in a plain line, their keys within a group. -/
def plainAttrs (group : Text) : List LogAttr → String
  | [] => ""
  | a :: rest =>
    " " ++ plainKey group a.key ++ "=" ++ plainValue a.value ++ plainAttrs group rest

/-- A record as a plain line. -/
def plainLine (r : LogRecord) : String :=
  "level=" ++ r.level.tag ++ " msg=" ++ plainText r.message ++ plainAttrs [] r.context ++
    plainAttrs r.group r.attrs ++ "\n"

/-! ## JSON lines -/

/-- A character in a JSON string.  Line and paragraph separators are escaped,
for some readers take them for line ends. -/
def jsonChar (c : Char) : List Char :=
  if c = '"' || c = '\\' then ['\\', c]
  else if c = '\n' then ['\\', 'n']
  else if c = '\r' then ['\\', 'r']
  else if c = '\t' then ['\\', 't']
  else if c.toNat < 0x20 || c.toNat = 0x2028 || c.toNat = 0x2029 then
    '\\' :: 'u' :: hexDigits 4 c.toNat
  else [c]

/-- A text as a JSON string, each stray byte as U+FFFD. -/
def jsonText (t : Text) : String :=
  String.ofList ('"' :: t.flatMap (fun g => jsonChar g.shown) ++ ['"'])

/-- A value in a JSON line. -/
def jsonValue : LogValue → String
  | .text t => jsonText t
  | .number n => toString n
  | .flag b => if b then "true" else "false"

/-- A member of a JSON object. -/
def jsonMember (a : LogAttr) : String := jsonText a.key ++ ":" ++ jsonValue a.value

/-- Members, each preceded by a comma. -/
def jsonMembers : List LogAttr → String
  | [] => ""
  | a :: rest => "," ++ jsonMember a ++ jsonMembers rest

/-- The attributes of a group as an object, preceded by a comma.  A group
without attributes is left out. -/
def jsonGroup (group : Text) : List LogAttr → String
  | [] => ""
  | a :: rest =>
    if group.isEmpty then jsonMembers (a :: rest)
    else "," ++ jsonText group ++ ":\x7b" ++ jsonMember a ++ jsonMembers rest ++ "\x7d"

/-- A record as a JSON line. -/
def jsonLine (r : LogRecord) : String :=
  "\x7b\"level\":\"" ++ r.level.tag ++ "\",\"msg\":" ++ jsonText r.message ++
    jsonMembers r.context ++ jsonGroup r.group r.attrs ++ "\x7d\n"

end Log

end Sequitur
