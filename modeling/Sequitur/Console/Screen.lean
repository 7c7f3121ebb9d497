import Sequitur.Console.Basic

/-!
# Sequitur.Console.Screen

A console together with the check it has asked for.  The check is made when
one says so, at any later time, and its answer is given to the console.
-/

namespace Sequitur

/-- A console, and the query about a goal that it waits for. -/
structure Screen where
  console : Console
  pending : Option (Query × Sequent) := none
  /-- Whether the last event has ended the program. -/
  quits : Bool := false

/-- What happens at a screen. -/
inductive ScreenEvent where
  | event (e : ConsoleEvent)
  /-- The check that the console waits for is made. -/
  | makeCheck

namespace Screen

/-- Gives an event to the console. -/
def deliver (e : ConsoleEvent) (s : Screen) : Screen :=
  match s.console.update e with
  | (c, none) => { s with console := c, quits := false }
  | (c, some .quit) => { s with console := c, quits := true }
  | (c, some (.check q goal)) => { console := c, pending := some (q, goal), quits := false }

/-- What happens next. -/
def step (s : Screen) : ScreenEvent → Screen
  | .event e => s.deliver e
  | .makeCheck =>
    match s.pending with
    | none => { s with quits := false }
    | some (q, goal) =>
      let options := s.console.session.options
      let result :=
        q.answer options.solver options.source (Interruption.of? false options.limit) goal
      { s with pending := none }.deliver (.answered result)

/-- The screen for a session. -/
def start (s : Session) : Screen := { console := Console.start s }

end Screen

end Sequitur
