import Sequitur.Text.Blank
import Sequitur.Formula.Parser
import Sequitur.Sequent.Basic

/-!
# Sequitur.Sequent.Parser

Reading sequents.  A text must hold exactly one turnstile, in either
spelling and wherever it stands.  Before it come the hypotheses, separated
by commas; if there are only blanks there are none.  After it comes the
conclusion.
-/

namespace Sequitur

/-- Why a text is no sequent. -/
inductive SequentError where
  | noTurnstile
  | manyTurnstiles
  /-- The hypothesis at a position is no formula. -/
  | hypothesis (index : Nat) (e : FormulaError)
  /-- The conclusion is no formula. -/
  | conclusion (e : FormulaError)
deriving DecidableEq

namespace SequentError

/-- What an error says of the sequent as a whole. -/
def summary : SequentError → String
  | noTurnstile => "missing sequent symbol"
  | manyTurnstiles => "expecting only one sequent symbol"
  | hypothesis i _ => "invalid hypothesis #" ++ toString i
  | conclusion _ => "invalid conclusion"

/-- The error in a formula that an error comes from. -/
def cause? : SequentError → Option FormulaError
  | hypothesis _ e => some e
  | conclusion e => some e
  | _ => none

/-- The message of an error. -/
def message (e : SequentError) : String :=
  match e.cause? with
  | some cause => e.summary ++ ": " ++ cause.message
  | none => e.summary

/-- What is said of a text that was promised to be a sequent and is none. -/
def refusal (t : Text) (e : SequentError) : String :=
  "sequent: cannot parse " ++ t.shown ++ ": " ++ e.message

end SequentError

namespace Sequent

/-- What stands after the turnstile a text starts with, if it starts with one. -/
def afterTurnstile? : Text → Option Text
  | .char '⊢' :: rest => some rest
  | .char '|' :: .char '-' :: rest => some rest
  | _ => none

/-- The number of turnstiles in a text. -/
def countTurnstiles : Text → Nat
  | [] => 0
  | g :: rest => (if (afterTurnstile? (g :: rest)).isSome then 1 else 0) + countTurnstiles rest

/-- Cuts a text at its first turnstile. -/
def cut? : Text → Option (Text × Text)
  | [] => none
  | g :: rest =>
    match afterTurnstile? (g :: rest) with
    | some right => some ([], right)
    | none => (cut? rest).map fun (left, right) => (g :: left, right)

/-- Reads hypotheses, the first of them at position `i`. -/
def parseHyps (i : Nat) : List Text → Except SequentError (List Formula)
  | [] => .ok []
  | t :: ts =>
    match Formula.parse t with
    | .error e => .error (.hypothesis i e)
    | .ok h => do
      let hs ← parseHyps (i + 1) ts
      .ok (h :: hs)

/-- Reads a sequent. -/
def parse (t : Text) : Except SequentError Sequent :=
  if 1 < countTurnstiles t then .error .manyTurnstiles
  else
    match cut? t with
    | none => .error .noTurnstile
    | some (left, right) => do
      let hyps ← parseHyps 0 (if left.isBlank then [] else left.splitOn ',')
      match Formula.parse right with
      | .error e => .error (.conclusion e)
      | .ok concl => .ok ⟨hyps, concl⟩

end Sequent

end Sequitur
