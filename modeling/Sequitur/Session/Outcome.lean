import Sequitur.Derivation.Basic
import Sequitur.Validity.Interruption
import Sequitur.Validity.Needed

/-!
# Sequitur.Session.Outcome

What an input line leads to: an outcome, or an error that leaves everything
as it was.
-/

namespace Sequitur

/-! ## Meta commands -/

/-- The commands of a session that start with a colon. -/
inductive MetaCommand where
  | back
  | forward
  | reset
  | skip
  | help
  | negation
  | unicode
  | check
  | needed
  | quit
deriving DecidableEq

namespace MetaCommand

/-- All meta commands. -/
def all : List MetaCommand :=
  [back, forward, reset, skip, help, negation, unicode, check, needed, quit]

/-- The text of a meta command. -/
def name : MetaCommand → String
  | back => ":b"
  | forward => ":f"
  | reset => ":r"
  | skip => ":s"
  | help => ":h"
  | negation => ":n"
  | unicode => ":u"
  | check => ":c"
  | needed => ":w"
  | quit => ":q"

/-- The meta command with a text. -/
def ofText? (t : Text) : Option MetaCommand := all.find? fun m => Text.ofString m.name = t

/-- Whether a text is meant as a meta command. -/
def isMeta : Text → Bool
  | .char ':' :: _ => true
  | _ => false

end MetaCommand

/-- The commands of a session. -/
def usage : String :=
  "COMMANDS\n" ++
  "  :b            back one step, undo the last action\n" ++
  "  :f            forward one step, redo the last undone action\n" ++
  "  :r            reset all steps, undo all actions\n" ++
  "  :s            skip to the next sequent\n" ++
  "  :h            print this help message\n" ++
  "  :n            toggle on/off the negation representation\n" ++
  "  :u            toggle on/off unicode symbols\n" ++
  "  :c            check the current goal is classically valid\n" ++
  "  :w            show which hypotheses of the current goal can be weakened away\n" ++
  "  :q            quit the program\n" ++
  "\n" ++
  "APPLICABLE RULES\n" ++
  "  h             hypothesis\n" ++
  "  i             introduction of the conclusion (the rule is chosen\n" ++
  "                from the conclusion's connective)\n" ++
  "  xf            exfalso\n" ++
  "  e <N>         elimination of the Nth hypothesis (the rule is chosen\n" ++
  "                from the hypothesis' connective)\n" ++
  "  ii            implication introduction\n" ++
  "  iis           implications introduction (for chained implications)\n" ++
  "  dil           disjunction introduction left\n" ++
  "  dir           disjunction introduction right\n" ++
  "  ci            conjunction introduction\n" ++
  "  mp <F>        modus ponens on F (a formula like ~P/\\Q)\n" ++
  "  de <F>, <F>   disjunction elimination of left formula and right formula\n" ++
  "  ce <F>, <F>   conjunction elimination of left formula and right formula\n" ++
  "  aff <N> ...   weakening, removal of the given hypotheses\n" ++
  "\n" ++
  "Hypotheses are numbered from 0.\n"

/-! ## Outcomes -/

/-- The kinds of outcome. -/
inductive OutcomeKind where
  | applied
  | solved
  | moved
  | next
  | styled
  | message
  | help
  | finished
  | quit
deriving DecidableEq

namespace OutcomeKind

/-- All kinds; a kind's number is its place in this list. -/
def all : List OutcomeKind :=
  [applied, solved, moved, next, styled, message, help, finished, quit]

/-- The name of a kind. -/
def name : OutcomeKind → String
  | applied => "applied"
  | solved => "solved"
  | moved => "moved"
  | next => "next"
  | styled => "styled"
  | message => "message"
  | help => "help"
  | finished => "finished"
  | quit => "quit"

/-- The name of the kind with a number, or a description of the number. -/
def describe (n : Int) : String :=
  match nth? all n with
  | some kind => kind.name
  | none => "Kind(" ++ toString n ++ ")"

end OutcomeKind

/-- What an input did. -/
inductive Outcome where
  /-- A rule was applied and goals remain. -/
  | applied
  /-- A rule was applied and no goal remains. -/
  | solved
  /-- Steps were undone or redone. -/
  | moved
  /-- The next sequent has come, the last one having been proved or skipped. -/
  | next (skipped : Bool)
  /-- Negations are written as such, or no longer. -/
  | negation (on : Bool)
  /-- Unicode symbols are used, or no longer. -/
  | unicode (on : Bool)
  /-- The current goal has been checked. -/
  | verdict (v : Verdict)
  /-- The hypotheses at these positions are not needed for validity. -/
  | unneeded (is : List Nat)
  /-- The usage has been asked for. -/
  | help
  /-- There are no more sequents. -/
  | finished
  /-- The user wants to leave. -/
  | quit
deriving DecidableEq

namespace Outcome

/-- The kind of an outcome. -/
def kind : Outcome → OutcomeKind
  | applied => .applied
  | solved => .solved
  | moved => .moved
  | next _ => .next
  | negation _ => .styled
  | unicode _ => .styled
  | verdict _ => .message
  | unneeded _ => .message
  | help => .help
  | finished => .finished
  | quit => .quit

/-- A switch that has been turned on or off. -/
def switched (name : String) (on : Bool) : String := name ++ (if on then " on" else " off")

/-- What is said of an outcome. -/
def message : Outcome → String
  | applied => ""
  | solved => "solved"
  | moved => ""
  | next skipped => if skipped then "skipped" else "next sequent"
  | negation on => switched "negation" on
  | unicode on => switched "unicode" on
  | verdict .valid => Verdict.valid.message ++ " (a proof may still not exist)"
  | verdict (.invalid m) => (Verdict.invalid m).message ++ " (there is no proof)"
  | unneeded [] => "every hypothesis is needed"
  | unneeded is => "hypotheses not needed: " ++ (Request.weaken (is.map Int.ofNat)).toString
  | help => usage
  | finished => "no more sequents"
  | quit => ""

end Outcome

/-! ## Errors -/

/-- Why an input has no outcome. -/
inductive SessionError where
  | emptyInput
  /-- There is no step to undo or redo. -/
  | noHistory
  | unknownCommand (line : Text)
  /-- The line is no request. -/
  | request (e : RequestError)
  /-- The request cannot be applied. -/
  | derivation (e : DerivationError)
  /-- A validity check was given up. -/
  | checkStopped (why : Interruption)
  /-- A search for needed hypotheses was given up. -/
  | neededStopped (why : Interruption)
  /-- A goal that is not valid has no needed hypotheses. -/
  | neededInvalid (goal : Sequent)
deriving DecidableEq

namespace SessionError

/-- The message of an error. -/
def message : SessionError → String
  | emptyInput => "empty input"
  | noHistory => "no more history"
  | unknownCommand line => "unknown command " ++ line.quoted
  | request e => e.message
  | derivation e => e.message
  | checkStopped why => "could not check validity: " ++ why.message
  | neededStopped why => "could not find needed hypotheses: " ++ why.message
  | neededInvalid goal => "could not find needed hypotheses: " ++ goal.notValidMessage

end SessionError

/-! ## Queries about a goal -/

/-- The two questions that can be asked about a goal. -/
inductive Query where
  | check
  | needed
deriving DecidableEq

/-- The query that a meta command makes. -/
def MetaCommand.query? : MetaCommand → Option Query
  | check => some .check
  | needed => some .needed
  | _ => none

/-- Of so many positions from `i` on, those that are not in an increasing list.
The two are gone through together: a position that comes next in the list is
passed over, and so is the place in the list. -/
def skipping (i : Nat) : Nat → List Nat → List Nat
  | 0, _ => []
  | count + 1, [] => i :: skipping (i + 1) count []
  | count + 1, next :: is =>
    if next = i then skipping (i + 1) count is else i :: skipping (i + 1) count (next :: is)

/-- The positions below `n` that are not in an increasing list. -/
def otherPositions (n : Nat) (is : List Nat) : List Nat := skipping 0 n is

/-- The answer to a query about a goal, unless it is given up. -/
def Query.answer (solver : Solver) (source : CandidateSource) (stop : Option Interruption)
    (goal : Sequent) : Query → Except SessionError Outcome
  | .check =>
    match stop with
    | some why => .error (.checkStopped why)
    | none => .ok (.verdict (goal.check solver))
  | .needed =>
    match stop with
    | some why => .error (.neededStopped why)
    | none =>
      match goal.needed? source solver with
      | none => .error (.neededInvalid goal)
      | some is => .ok (.unneeded (otherPositions goal.hyps.length is))

end Sequitur
