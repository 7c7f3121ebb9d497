import Sequitur.Console.Pager
import Sequitur.Console.Prompt
import Sequitur.Session.Basic

/-!
# Sequitur.Console.Basic

A session at a terminal.  The screen has a header, the drawing of the
current derivation, a status line and a prompt.  Lines typed at the prompt
are executed by the session, and earlier ones can be recalled.

Checks of a goal may take long, so the console does not answer them itself:
it asks for one, goes on, and is told the answer by a later event.  There is
one check at a time.  The answer belongs to the goal at the time of asking,
whatever has been done since.
-/

namespace Sequitur

/-- The keys that are no characters. -/
inductive Key where
  | enter
  | escape
  | up
  | down
  | pageUp
  | pageDown
  | interrupt
  | endOfInput
  | edit (e : Edit)
deriving DecidableEq

/-- What happens at a console. -/
inductive ConsoleEvent where
  /-- The window has a new width and height. -/
  | resize (width height : Int)
  /-- Characters are typed, all at once. -/
  | typed (t : Text)
  | key (k : Key)
  /-- The check that was asked for has an answer. -/
  | answered (result : Except SessionError Outcome)

/-- What a console asks for. -/
inductive ConsoleRequest where
  /-- The end of the program. -/
  | quit
  /-- The answer to a query about a goal. -/
  | check (q : Query) (goal : Sequent)
deriving DecidableEq

/-- The state of a console. -/
structure Console where
  session : Session
  prompt : Prompt := {}
  pager : Pager := {}
  /-- Whether the size of the window is known. -/
  isReady : Bool := false
  status : String := "type :h for help"
  /-- Whether the status tells of an error. -/
  isError : Bool := false
  /-- The lines that have been executed, without blanks around them. -/
  past : List Text := []
  /-- The position of the line that has been recalled, if one is. -/
  recalled : Option Nat := none
  /-- The line that was typed when the first one was recalled. -/
  draft : Text := []
  showsHelp : Bool := false
  /-- Whether a check has been asked for and not been answered. -/
  isChecking : Bool := false
  hasQuit : Bool := false

namespace Console

/-- Says something in the status line. -/
def say (s : String) (c : Console) : Console := { c with status := s, isError := false }

/-- Tells of an error in the status line. -/
def complain (e : SessionError) (c : Console) : Console :=
  { c with status := e.message, isError := true }

/-- Leaves the console. -/
def leave (c : Console) : Console × Option ConsoleRequest :=
  ({ c with hasQuit := true }, some .quit)

/-! ## The drawing -/

/-- The lines of a text, without the breaks at its end. -/
def linesOf (s : String) : List String :=
  (splitLines (s.toList.reverse.dropWhile (· = '\n')).reverse).map String.ofList
where
  /-- Cuts a text at its breaks. -/
  splitLines : List Char → List (List Char)
    | [] => [[]]
    | c :: rest =>
      if c = '\n' then [] :: splitLines rest
      else
        match splitLines rest with
        | [] => [[c]]
        | line :: lines => (c :: line) :: lines

/-- Shows the end of the drawing in as many rows as there are. -/
def refreshed (c : Console) : Console :=
  if c.isReady then { c with pager := c.pager.showEnd (linesOf c.session.render) } else c

/-- The rows of the window that are not for the drawing. -/
def otherRows : Int := 3

/-- The columns of the window that are not for the line. -/
def otherColumns : Int := 3

/-- Fits the console into a window. -/
def resize (width height : Int) (c : Console) : Console :=
  refreshed
    { c with
      isReady := true
      pager := { c.pager with height := (max (height - otherRows) 1).toNat }
      prompt := { c.prompt with width := (max (width - otherColumns) 1).toNat } }

/-! ## Executing lines -/

/-- What an executed line does to the console. -/
def settle (o : Outcome) (c : Console) : Console × Option ConsoleRequest :=
  match o with
  | .quit => c.leave
  | .finished => (c.say o.message).leave
  | .help => ({ c with showsHelp := true }, none)
  | .solved => ((c.say "solved, press enter for the next sequent").refreshed, none)
  | o => ((c.say o.message).refreshed, none)

/-- Executes a line in the session. -/
def execLine (line : Text) (c : Console) : Console × Option ConsoleRequest :=
  let reply := c.session.exec false line
  let c := { c with session := reply.session }
  match reply.result with
  | .error e => (c.complain e, none)
  | .ok o => c.settle o

/-- Asks for a check of the current goal, unless one is going on. -/
def ask (q : Query) (c : Console) : Console × Option ConsoleRequest :=
  if c.isChecking then (c.say "a check is already running", none)
  else ({ c with isChecking := true }.say "checking...", some (.check q c.session.goal))

/-- The query that a line makes. -/
def query? (line : Text) : Option Query := (MetaCommand.ofText? line).bind MetaCommand.query?

/-- Submits a line. -/
def submit (line : Text) (c : Console) : Console × Option ConsoleRequest :=
  let line := line.trim
  let c :=
    { c with past := if line.isEmpty then c.past else c.past ++ [line], recalled := none }
  match query? line with
  | some q => if c.session.isDone then c.execLine line else c.ask q
  | none => c.execLine line

/-! ## Recalling lines -/

/-- Puts a line into the prompt, with the cursor at its end. -/
def putLine (line : Text) (c : Console) : Console :=
  { c with prompt := (c.prompt.setText line).toEnd }

/-- Recalls the line at a position. -/
def recallAt (i : Nat) (c : Console) : Console :=
  { c with recalled := some i }.putLine (c.past[i]?.getD [])

/-- Recalls the line before the one that is shown. -/
def recallUp (c : Console) : Console :=
  if c.past.isEmpty then c
  else
    match c.recalled with
    | none => { c with draft := c.prompt.text }.recallAt (c.past.length - 1)
    | some i => c.recallAt (i - 1)

/-- Recalls the line after the one that is shown; after the last one, the
line that was typed. -/
def recallDown (c : Console) : Console :=
  match c.recalled with
  | none => c
  | some i =>
    if i + 1 < c.past.length then c.recallAt (i + 1)
    else { c with recalled := none }.putLine c.draft

/-! ## Events -/

/-- Types characters.  Those that spell the name of a key act as that key. -/
def typed (t : Text) (c : Console) : Console :=
  match Prompt.named? t.shown with
  | some e => { c with prompt := c.prompt.edit e }
  | none => { c with prompt := c.prompt.type t }

/-- A key while the help is shown. -/
def helpKey (k : Key) (c : Console) : Console × Option ConsoleRequest :=
  match k with
  | .interrupt => c.leave
  | .escape => ({ c with showsHelp := false }, none)
  | .enter => ({ c with showsHelp := false }, none)
  | _ => (c, none)

/-- A key while the drawing is shown. -/
def promptKey (k : Key) (c : Console) : Console × Option ConsoleRequest :=
  match k with
  | .interrupt => c.leave
  | .endOfInput => c.leave
  | .enter => { c with prompt := c.prompt.setText [] }.submit c.prompt.text
  | .up => (c.recallUp, none)
  | .down => (c.recallDown, none)
  | .pageUp => ({ c with pager := c.pager.pageUp }, none)
  | .pageDown => ({ c with pager := c.pager.pageDown }, none)
  | .escape => ({ c with prompt := c.prompt.edit .stay }, none)
  | .edit e => ({ c with prompt := c.prompt.edit e }, none)

/-- The answer of a check. -/
def answered (result : Except SessionError Outcome) (c : Console) : Console :=
  match result with
  | .error e => { c with isChecking := false }.complain e
  | .ok o => { c with isChecking := false }.say o.message

/-- What an event does, and what the console asks for then. -/
def update (c : Console) : ConsoleEvent → Console × Option ConsoleRequest
  | .resize width height => (c.resize width height, none)
  | .answered result => (c.answered result, none)
  | .typed t => (if c.showsHelp then c else c.typed t, none)
  | .key k => if c.showsHelp then c.helpKey k else c.promptKey k

/-- A console for a session. -/
def start (s : Session) : Console := { session := s }

/-! ## The screen -/

/-- What stands in an empty prompt. -/
def placeholder : String := "rule or :h for help"

/-- The last line of the screen. -/
def promptLine (c : Console) : String :=
  "> " ++
    if c.prompt.chars.isEmpty then String.ofList (placeholder.toList.take (c.prompt.width + 1))
    else c.prompt.shown

/-- The usage, indented by a space. -/
def helpLines : List String := (linesOf.splitLines usage.toList).map fun l => " " ++ String.ofList l

/-- The lines of the screen. -/
def view (c : Console) : List String :=
  if c.hasQuit then [""]
  else if !c.isReady then ["Loading...", ""]
  else
    ("prove " ++ c.session.status) :: (if c.showsHelp then helpLines else c.pager.visible) ++
      [c.status, c.promptLine]

end Console

end Sequitur
