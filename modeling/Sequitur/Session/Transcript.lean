import Sequitur.Text.Lines
import Sequitur.Session.Basic

/-!
# Sequitur.Session.Transcript

A session run over lines of input, without a terminal.  The status and the
drawing are written at the start and after each line that may have changed
them.  The run ends when the user leaves, when no sequent is left, or with
the input.
-/

namespace Sequitur

/-- Why a run stops before its input does. -/
inductive TranscriptError where
  | canceled
  /-- A line is too long to be read. -/
  | overlong
deriving DecidableEq

/-- The message of an error. -/
def TranscriptError.message : TranscriptError → String
  | canceled => Interruption.canceled.message
  | overlong => Lines.overlongMessage

/-- The result of a run. -/
structure Transcript where
  output : String
  records : List LogRecord
  /-- The session at the end. -/
  session : Session
  error : Option TranscriptError

namespace Transcript

/-- The status and the drawing of a session. -/
def block (s : Session) : String := "-- " ++ s.status ++ "\n" ++ s.render ++ "\n"

/-- What is written for a reply. -/
def response (r : Reply) : String :=
  match r.result with
  | .error e => "error: " ++ e.message ++ "\n"
  | .ok o =>
    match o.kind with
    | .quit => ""
    | .finished | .message | .help => o.message ++ "\n"
    | _ => (if o.message.isEmpty then "" else o.message ++ "\n") ++ block r.session

/-- Whether a reply ends the run. -/
def ends (r : Reply) : Bool :=
  match r.result with
  | .ok .quit => true
  | .ok .finished => true
  | _ => false

/-- Runs a session over lines; `rest` is what stops the run after them. -/
def follow (s : Session) (rest : Option TranscriptError) : List Text → Transcript
  | [] => { output := "", records := [], session := s, error := rest }
  | line :: lines =>
    let reply := s.exec false line
    if ends reply then
      { output := response reply, records := reply.records, session := reply.session,
        error := none }
    else
      let after := follow reply.session rest lines
      { after with
        output := response reply ++ after.output, records := reply.records ++ after.records }

/-- Runs a session over an input.  With `canceled`, the run stops at the
first line. -/
def run (s : Session) (canceled : Bool) (input : Text) : Transcript :=
  let read := Lines.read input
  let rest := if read.overlong then some .overlong else none
  let after :=
    if canceled then
      match read.lines with
      | [] => follow s rest []
      | _ :: _ => follow s (some .canceled) []
    else follow s rest read.lines
  { after with output := block s ++ after.output }

end Transcript

end Sequitur
