import Sequitur.Validity.Solver

/-!
# Sequitur.Validity.Check

Classical validity.  A sequent is valid when its clause form has no
satisfying assignment; a satisfying assignment gives a countermodel, a value
for each variable of the sequent under which all hypotheses hold and the
conclusion does not.  Any solver may be asked for the assignment.

The calculus is intuitionistic, so a valid sequent need not have a proof.
One that is not valid has none.
-/

namespace Sequitur

/-- Values for the variables of a sequent. -/
abbrev Countermodel := List (Name × Bool)

/-- The answer to a validity check. -/
inductive Verdict where
  | valid
  | invalid (countermodel : Countermodel)
deriving DecidableEq

namespace Verdict

/-- Whether the verdict is validity. -/
def isValid : Verdict → Bool
  | valid => true
  | invalid _ => false

/-- The countermodel of an invalid sequent. -/
def countermodel? : Verdict → Option Countermodel
  | valid => none
  | invalid m => some m

/-- The values of a countermodel as they are shown. -/
def showValues : Countermodel → String
  | [] => ""
  | (x, value) :: rest =>
    " " ++ x.toString ++ "=" ++ (if value then "true" else "false") ++ showValues rest

/-- The wording of a verdict. -/
def message : Verdict → String
  | valid => "classically valid"
  | invalid [] => "not valid, countermodel: any"
  | invalid m => "not valid, countermodel:" ++ showValues m

end Verdict

namespace Sequent

/-- The formulas of a sequent. -/
def formulas (s : Sequent) : List Formula := s.hyps ++ [s.concl]

/-- Values for the variables of a sequent, in the order of their names, that
satisfy its clause form. -/
def countermodel? (s : Sequent) (solver : Solver := .learning) : Option Countermodel :=
  let f := s.clauseForm
  match solver.find f.clauses with
  | none => none
  | some values =>
    some ((Formula.vars s.formulas).map fun x => (x, (f.vars.lookup x).any values.value))

/-- Decides whether a sequent is classically valid. -/
def check (s : Sequent) (solver : Solver := .learning) : Verdict :=
  match s.countermodel? solver with
  | none => .valid
  | some m => .invalid m

/-- Whether a sequent is classically valid. -/
def isValid (s : Sequent) (solver : Solver := .learning) : Bool := (s.check solver).isValid

end Sequent

end Sequitur
