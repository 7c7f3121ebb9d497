import Sequitur.Formula.Printer

/-!
# Sequitur.Sequent.Basic

Sequents: a list of hypotheses and a conclusion.  Hypotheses are addressed
by their position, counted from zero, and duplicates are kept.  A position
is an integer, because that is what a user may type; outside the list it
names nothing.
-/

namespace Sequitur

/-- The element at an integer position, if there is one. -/
def nth? {α : Type} (xs : List α) : Int → Option α
  | .ofNat n => xs[n]?
  | .negSucc _ => none

/-- A sequent: its hypotheses entail its conclusion. -/
structure Sequent (ν : Type := Name) where
  hyps : List (Formula ν)
  concl : Formula ν
deriving DecidableEq

namespace Sequent

/-- The hypothesis at a position. -/
def hyp? (s : Sequent) (i : Int) : Option Formula := nth? s.hyps i

section

variable {ν : Type} [DecidableEq ν] [ToString ν]

/-- Hypotheses as printed text, separated by commas. -/
def formatHyps (st : Style) : List (Formula ν) → List Span
  | [] => []
  | [h] => h.format st ++ [{ text := " ", cls := .plain }]
  | h :: hs =>
    h.format st ++ Symbol.comma.span st :: { text := " ", cls := .plain } :: formatHyps st hs

/-- A sequent as printed text.  With `emphasis`, the spans of the conclusion
are emphasized. -/
def format (st : Style) (emphasis : Bool) (s : Sequent ν) : List Span :=
  let concl := s.concl.format st
  formatHyps st s.hyps ++ Symbol.turnstile.span st :: { text := " ", cls := .plain } ::
    (if emphasis then Span.emphasize concl else concl)

/-- A sequent as a string in a style. -/
def print (st : Style) (s : Sequent ν) : String := Span.plainText (s.format st false)

end

/-- A sequent as a string in messages. -/
def toString (s : Sequent) : String := s.print .default

instance : ToString Sequent := ⟨toString⟩

end Sequent

end Sequitur
