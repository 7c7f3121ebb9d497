import Sequitur.Validity.Check

/-!
# Sequitur.Validity.Needed

Which hypotheses a valid sequent needs.  Starting from candidates that are
known to suffice, hypotheses are given up one by one, from the first to the
last, as long as the sequent stays valid without them.  What remains
suffices, and nothing in it can be given up: a sequent that is not valid
under some hypotheses is not valid under fewer.

Candidates may come from anywhere, for instance from an unsatisfiable part
of the clause form.  If they do not suffice, all hypotheses are candidates.
-/

namespace Sequitur

/-- Where candidates come from: for a sequent, positions of hypotheses that
are likely to suffice, if any are known. -/
abbrev CandidateSource := Sequent → Option (List Nat)

/-- The source that knows of no candidates. -/
def CandidateSource.none : CandidateSource := fun _ => Option.none

namespace Sequent

/-- The sequent with only the hypotheses that are kept. -/
def keeping (s : Sequent) (kept : List Bool) : Sequent :=
  { s with hyps := ((s.hyps.zip kept).filter (·.2)).map (·.1) }

/-- Gives up hypotheses where the sequent stays valid.  `before` says for
the hypotheses already looked at whether they are kept, last first, and the
list says it for those to come. -/
def giveUp (solver : Solver) (s : Sequent) (before : List Bool) : List Bool → List Bool
  | [] => before.reverse
  | false :: after => s.giveUp solver (false :: before) after
  | true :: after =>
    if (s.keeping (before.reverse ++ false :: after)).isValid solver then
      s.giveUp solver (false :: before) after
    else s.giveUp solver (true :: before) after

/-- Which hypotheses are kept at first: the candidates if they suffice, else
all of them. -/
def startingFrom (solver : Solver) (source : CandidateSource) (s : Sequent) : List Bool :=
  let every := s.hyps.map fun _ => true
  match source s with
  | none => every
  | some is =>
    let chosen := (List.range s.hyps.length).map is.contains
    if (s.keeping chosen).isValid solver then chosen else every

/-- The positions that are kept, the first flag being at position `i`. -/
def positionsKept (i : Nat) : List Bool → List Nat
  | [] => []
  | true :: rest => i :: positionsKept (i + 1) rest
  | false :: rest => positionsKept (i + 1) rest

/-- The positions, in increasing order, of hypotheses that suffice for
validity and of which none can be given up; none if the sequent is not
valid. -/
def needed? (source : CandidateSource) (s : Sequent) (solver : Solver := .learning) :
    Option (List Nat) :=
  if s.isValid solver then
    some (positionsKept 0 (s.giveUp solver [] (s.startingFrom solver source)))
  else none

/-- The message for a sequent that has no needed hypotheses since it is not valid. -/
def notValidMessage (s : Sequent) : String := "sequent " ++ s.toString ++ " is not valid"

end Sequent

end Sequitur
