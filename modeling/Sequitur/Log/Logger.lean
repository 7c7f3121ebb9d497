import Sequitur.Log.Format

/-!
# Sequitur.Log.Logger

Where records go.  A logger writes those of its level and above to an
output, unless it is quiet, and to a file if one is named.  The file always
takes the JSON format.
-/

namespace Sequitur

/-- How logging is set up. -/
structure Logger where
  level : LogLevel
  /-- Whether the output takes the JSON format. -/
  json : Bool := false
  /-- Whether nothing is written to the output. -/
  quiet : Bool := false
  /-- The name of the log file; empty for none. -/
  file : Text := []
deriving DecidableEq

namespace Logger

/-- Whether a record is important enough. -/
def accepts (l : Logger) (r : LogRecord) : Bool := l.level.number ≤ r.level.number

/-- Lines written one after the other. -/
def written (line : LogRecord → String) (accepts : LogRecord → Bool) : List LogRecord → String
  | [] => ""
  | r :: rest => (if accepts r then line r else "") ++ written line accepts rest

/-- What is written to the output. -/
def output (l : Logger) (records : List LogRecord) : String :=
  if l.quiet then ""
  else written (if l.json then Log.jsonLine else Log.plainLine) l.accepts records

/-- What is written to the file. -/
def fileOutput (l : Logger) (records : List LogRecord) : String :=
  written Log.jsonLine l.accepts records

/-- The message for a level name that is unknown. -/
def unknownLevelMessage (name : Text) : String := "invalid log level " ++ name.quoted

/-- The message for a log file that cannot be opened, given why. -/
def unopenedMessage (cause : String) : String := "could not open log file: " ++ cause

end Logger

end Sequitur
