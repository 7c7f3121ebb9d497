import Sequitur.Text.Lines
import Sequitur.Sequent.Parser

/-!
# Sequitur.Session.SequentFile

Files of sequents, one per line.  Blank lines and lines that start with a
number sign are ignored, blanks around a line do not count, and lines are
numbered from 1.
-/

namespace Sequitur

/-- Why a file of sequents cannot be read. -/
inductive SequentFileError where
  /-- The line with a number is no sequent. -/
  | line (number : Nat) (e : SequentError)
  /-- A line is too long to be read. -/
  | overlong
deriving DecidableEq

/-- The message for a file that cannot be read, given why. -/
def unreadableMessage (cause : String) : String := "could not read sequents: " ++ cause

/-- The message of an error. -/
def SequentFileError.message : SequentFileError → String
  | line n e => "line " ++ toString n ++ ": " ++ e.message
  | overlong => unreadableMessage Lines.overlongMessage

namespace SequentFile

/-- Whether a line without blanks at its ends is ignored. -/
def isIgnored : Text → Bool
  | [] => true
  | .char '#' :: _ => true
  | _ => false

/-- Reads the sequents of lines, the first of them with number `n`. -/
def loadFrom (n : Nat) : List Text → Except SequentFileError (List Sequent)
  | [] => .ok []
  | t :: rest =>
    if isIgnored t.trim then loadFrom (n + 1) rest
    else
      match Sequent.parse t.trim with
      | .error e => .error (.line n e)
      | .ok s => do
        let ss ← loadFrom (n + 1) rest
        .ok (s :: ss)

/-- Reads the sequents of a file. -/
def load (t : Text) : Except SequentFileError (List Sequent) := do
  let read := Lines.read t
  let sequents ← loadFrom 1 read.lines
  if read.overlong then .error .overlong else .ok sequents

end SequentFile

end Sequitur
