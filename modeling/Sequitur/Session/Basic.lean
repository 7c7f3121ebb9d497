import Sequitur.Log.Record
import Sequitur.Picture.Paint
import Sequitur.Session.History
import Sequitur.Session.Outcome

/-!
# Sequitur.Session.Basic

A session proves its sequents one after the other.  An input line is a
request, applied to the next goal of the current derivation, or a meta
command, which starts with a colon.  Once a derivation is complete, any
line that is no meta command moves on to the next sequent.

Executing a line gives a reply: the session afterwards, what is to be
logged, and the outcome or the error.
-/

namespace Sequitur

/-- How a session shows derivations and answers queries. -/
structure SessionOptions where
  display : Picture.Options
  /-- Where candidates come from when needed hypotheses are asked for. -/
  source : CandidateSource := CandidateSource.none
  /-- What validity is decided with. -/
  solver : Solver := .learning
  /-- The time allowed for a query, in nanoseconds; any time if it is not
  positive. -/
  limit : Int := 0

/-- The state of an interactive proof. -/
structure Session where
  sequents : List Sequent
  /-- The position of the current sequent; the number of sequents once all
  have been seen. -/
  index : Nat
  /-- The derivations of the current sequent. -/
  history : History Derivation
  options : SessionOptions

/-- What executing a line leads to. -/
structure Reply where
  session : Session
  records : List LogRecord
  result : Except SessionError Outcome

namespace Session

/-- The message when there is nothing to prove. -/
def nothingMessage : String := "no sequent to prove"

/-- The record of a sequent that has come up. -/
def provingRecord (index : Nat) (s : Sequent) : LogRecord :=
  { level := .info, message := Text.ofString "proving sequent",
    attrs := [.ofNat "index" index, .ofString "sequent" s.toString] }

/-- A session over sequents, starting with the first one; none if there is
no sequent. -/
def start? (sequents : List Sequent) (options : SessionOptions) :
    Option (Session × List LogRecord) :=
  match sequents with
  | [] => none
  | s :: _ =>
    some ({ sequents, index := 0, history := .start (.goal s), options }, [provingRecord 0 s])

/-- Whether all sequents have been proved or skipped. -/
def isDone (s : Session) : Bool := s.sequents.length ≤ s.index

/-- The current derivation. -/
def derivation (s : Session) : Derivation := s.history.present

/-- The display style. -/
def style (s : Session) : Style := s.options.display.style

/-- The sequent the next request applies to; once the derivation is complete,
the proved sequent. -/
def goal (s : Session) : Sequent :=
  match s.derivation.nextGoal? with
  | none => s.derivation.sequent
  | some path =>
    match s.derivation.at? path with
    | none => s.derivation.sequent
    | some d => d.sequent

/-- The drawing of the current derivation. -/
def render (s : Session) : String :=
  if s.isDone then "" else Picture.draw s.options.display s.derivation

/-- A one-line summary. -/
def status (s : Session) : String :=
  let total := toString s.sequents.length
  if s.isDone then total ++ "/" ++ total ++ " sequents"
  else
    "sequent " ++ toString (s.index + 1) ++ "/" ++ total ++ ", step " ++
      toString s.history.steps ++ ", " ++ toString s.derivation.stats.goals ++ " goals left"

/-- Sets the display style. -/
def setStyle (s : Session) (st : Style) : Session :=
  { s with options := { s.options with display := { s.options.display with style := st } } }

/-! ## Executing a line -/

/-- A reply without records that changes nothing. -/
def refuse (s : Session) (e : SessionError) : Reply := ⟨s, [], .error e⟩

/-- A reply without records. -/
def accept (s : Session) (o : Outcome) : Reply := ⟨s, [], .ok o⟩

/-- Moves on to the next sequent. -/
def advance (s : Session) (skipped : Bool) : Reply :=
  match s.sequents[s.index + 1]? with
  | none => ⟨{ s with index := s.index + 1 }, [], .ok .finished⟩
  | some next =>
    ⟨{ s with index := s.index + 1, history := .start (.goal next) },
      [provingRecord (s.index + 1) next], .ok (.next skipped)⟩

/-- The record of a line that is no request. -/
def invalidRecord (line : Text) (e : RequestError) : LogRecord :=
  { level := .info, message := Text.ofString "invalid rule request",
    attrs := [⟨Text.ofString "input", .text line⟩, .ofString "error" e.message] }

/-- The record of a request that cannot be applied. -/
def refusedRecord (r : Request) (goal : Sequent) (e : DerivationError) : LogRecord :=
  { level := .info, message := Text.ofString "rule not applicable",
    attrs := [.ofString "request" r.toString, .ofString "goal" goal.toString,
      .ofString "error" e.message] }

/-- The record of a rule applied at a path. -/
def appliedRecord (path : Path) (goal : Sequent) (d : Derivation) : LogRecord :=
  { level := .debug, message := Text.ofString "rule applied",
    attrs := [.ofString "rule" ((d.at? path).bind (·.rule?) |>.elim "unknown" Rule.name),
      .ofString "path" path.toString, .ofString "goal" goal.toString,
      .ofNat "premises" ((d.at? path).elim 0 (·.premises.length))] }

/-- The record of a proved sequent. -/
def provedRecord (s : Session) : LogRecord :=
  { level := .info, message := Text.ofString "sequent proved",
    attrs := [.ofNat "index" s.index, .ofNat "steps" s.history.steps] }

/-- The record of a skipped sequent. -/
def skippedRecord (s : Session) : LogRecord :=
  { level := .info, message := Text.ofString "sequent skipped", attrs := [.ofNat "index" s.index] }

/-- Applies a request to the next goal. -/
def applyRequest (s : Session) (r : Request) : Reply :=
  match s.derivation.proveNext r with
  | .error e => ⟨s, [refusedRecord r s.goal e], .error (.derivation e)⟩
  | .ok d =>
    let after := { s with history := s.history.push d }
    let record := appliedRecord (s.derivation.nextGoal?.getD []) s.goal d
    if d.isComplete then ⟨after, [record, after.provedRecord], .ok .solved⟩
    else ⟨after, [record], .ok .applied⟩

/-- Executes a line that is meant as a request. -/
def execRequest (s : Session) (line : Text) : Reply :=
  match Request.parse line with
  | .error e => ⟨s, [invalidRecord line e], .error (.request e)⟩
  | .ok r => s.applyRequest r

/-- The answer to a query about the current goal. -/
def answer (s : Session) (canceled : Bool) (q : Query) : Except SessionError Outcome :=
  q.answer s.options.solver s.options.source (Interruption.of? canceled s.options.limit) s.goal

/-- Executes a meta command. -/
def execMeta (s : Session) (canceled : Bool) : MetaCommand → Reply
  | .back =>
    match s.history.undo? with
    | none => s.refuse .noHistory
    | some h => accept { s with history := h } .moved
  | .forward =>
    match s.history.redo? with
    | none => s.refuse .noHistory
    | some h => accept { s with history := h } .moved
  | .reset => accept { s with history := s.history.reset } .moved
  | .skip =>
    let reply := s.advance true
    { reply with records := s.skippedRecord :: reply.records }
  | .help => s.accept .help
  | .negation =>
    let st := { s.style with negation := !s.style.negation }
    (s.setStyle st).accept (.negation st.negation)
  | .unicode =>
    let st := { s.style with unicode := !s.style.unicode }
    (s.setStyle st).accept (.unicode st.unicode)
  | .check => ⟨s, [], s.answer canceled .check⟩
  | .needed => ⟨s, [], s.answer canceled .needed⟩
  | .quit => s.accept .quit

/-- Executes a line without blanks at its ends. -/
def execTrimmed (s : Session) (canceled : Bool) (line : Text) : Reply :=
  if s.isDone then
    s.accept (if MetaCommand.ofText? line = some .quit then .quit else .finished)
  else if MetaCommand.isMeta line then
    match MetaCommand.ofText? line with
    | none => s.refuse (.unknownCommand line)
    | some m => s.execMeta canceled m
  else if s.derivation.isComplete then s.advance false
  else if line.isEmpty then s.refuse .emptyInput
  else s.execRequest line

/-- Executes a line.  With `canceled`, validity checks are canceled. -/
def exec (s : Session) (canceled : Bool) (line : Text) : Reply := s.execTrimmed canceled line.trim

end Session

end Sequitur
