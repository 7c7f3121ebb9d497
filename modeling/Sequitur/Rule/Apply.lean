import Sequitur.Rule.Kind
import Sequitur.Rule.Request

/-!
# Sequitur.Rule.Apply

Applying a request to a sequent.  If the request fits, the result is the
rule it stands for and the premises that remain to be proved, in order;
otherwise it is the reason why it does not fit.

Introduction rules act on the conclusion.  An elimination acts on the
hypothesis at a position: an equivalence, a conjunction or a disjunction is
replaced in place by its parts, while an implication whose consequent is
the conclusion leaves its antecedent to be proved, under all hypotheses.
-/

namespace Sequitur

/-- Why a request does not fit a sequent. -/
inductive Reason where
  | notImplication
  | notDisjunction
  | notConjunction
  | notIntroducible
  | notEliminable
  | consequentMismatch
  | hypothesisNotFound
  | indexOutOfRange
  | emptyIndexSet
deriving DecidableEq

/-- The word for a reason. -/
def Reason.word : Reason → String
  | notImplication => "not-implication"
  | notDisjunction => "not-disjunction"
  | notConjunction => "not-conjunction"
  | notIntroducible => "not-introducible"
  | notEliminable => "not-eliminable"
  | consequentMismatch => "consequent-mismatch"
  | hypothesisNotFound => "hypothesis-not-found"
  | indexOutOfRange => "index-out-of-range"
  | emptyIndexSet => "empty-index-set"

/-- A request that does not fit, and why. -/
structure NotApplicable where
  request : Request
  reason : Reason
deriving DecidableEq

/-- The message for a request that does not fit. -/
def NotApplicable.message (e : NotApplicable) : String :=
  "cannot apply " ++ quoted e.request.toString ++ ": " ++ e.reason.word

/-- A rule and the premises it leaves to be proved. -/
structure Step where
  rule : Rule
  premises : List Sequent
deriving DecidableEq

namespace Sequent

/-- The hypotheses with more of them at the end. -/
def extended (s : Sequent) (ps : List Formula) : List Formula := s.hyps ++ ps

/-- The hypotheses with the one at position `i` replaced by others. -/
def replaced (s : Sequent) (i : Int) (ps : List Formula) : List Formula :=
  s.hyps.take i.toNat ++ ps ++ s.hyps.drop (i.toNat + 1)

/-- The antecedents of a formula, outermost first, and what they lead to. -/
def strip : Formula → List Formula × Formula
  | .impl l r =>
    let (antecedents, concl) := strip r
    (l :: antecedents, concl)
  | p => ([], p)

/-- Removes the elements at the given positions, the first element of the
list being at position `i`. -/
def without (is : List Int) (i : Nat) : List Formula → List Formula
  | [] => []
  | h :: hs => if is.contains (i : Int) then without is (i + 1) hs else h :: without is (i + 1) hs

/-- Closes a sequent whose conclusion is among its hypotheses. -/
def byHypothesis (s : Sequent) : Except Reason Step :=
  if s.concl ∈ s.hyps then .ok ⟨.hypothesis, []⟩ else .error .hypothesisNotFound

/-- Introduces an implication. -/
def implIntro (s : Sequent) : Except Reason Step :=
  match s.concl with
  | .impl l r => .ok ⟨.implicationIntro, [⟨s.extended [l], r⟩]⟩
  | _ => .error .notImplication

/-- Introduces all implications of a chain at once. -/
def implIntros (s : Sequent) : Step :=
  let (antecedents, concl) := strip s.concl
  ⟨.implicationIntros, [⟨s.extended antecedents, concl⟩]⟩

/-- Introduces a conjunction. -/
def conjIntro (s : Sequent) : Except Reason Step :=
  match s.concl with
  | .conj l r => .ok ⟨.conjunctionIntro, [⟨s.hyps, l⟩, ⟨s.hyps, r⟩]⟩
  | _ => .error .notConjunction

/-- Introduces a disjunction by its left side. -/
def disjIntroLeft (s : Sequent) : Except Reason Step :=
  match s.concl with
  | .disj l _ => .ok ⟨.disjunctionIntroLeft, [⟨s.hyps, l⟩]⟩
  | _ => .error .notDisjunction

/-- Introduces a disjunction by its right side. -/
def disjIntroRight (s : Sequent) : Except Reason Step :=
  match s.concl with
  | .disj _ r => .ok ⟨.disjunctionIntroRight, [⟨s.hyps, r⟩]⟩
  | _ => .error .notDisjunction

/-- Introduces the connective of the conclusion.  A disjunction is left out:
it would need a side to be chosen. -/
def intro (s : Sequent) : Except Reason Step :=
  match s.concl with
  | .equiv l r => .ok ⟨.equivalenceIntro, [⟨s.hyps, .impl l r⟩, ⟨s.hyps, .impl r l⟩]⟩
  | .conj _ _ => s.conjIntro
  | .impl _ _ => s.implIntro
  | _ => .error .notIntroducible

/-- Eliminates the hypothesis at a position. -/
def elim (s : Sequent) (i : Int) : Except Reason Step :=
  match s.hyp? i with
  | none => .error .indexOutOfRange
  | some (.equiv l r) =>
    .ok ⟨.equivalenceWeakElim, [⟨s.replaced i [.impl l r, .impl r l], s.concl⟩]⟩
  | some (.conj l r) => .ok ⟨.conjunctionWeakElim, [⟨s.replaced i [l, r], s.concl⟩]⟩
  | some (.disj l r) =>
    .ok ⟨.disjunctionWeakElim, [⟨s.replaced i [l], s.concl⟩, ⟨s.replaced i [r], s.concl⟩]⟩
  | some (.impl l r) =>
    if r = s.concl then .ok ⟨.weakModusPonens, [⟨s.hyps, l⟩]⟩ else .error .consequentMismatch
  | some _ => .error .notEliminable

/-- Removes the hypotheses at the given positions, all of which must exist. -/
def weaken (s : Sequent) (is : List Int) : Except Reason Step :=
  if is.isEmpty then .error .emptyIndexSet
  else if is.all fun i => (s.hyp? i).isSome then .ok ⟨.weaken, [⟨without is 0 s.hyps, s.concl⟩]⟩
  else .error .indexOutOfRange

/-- Applies a request, with the bare reason when it does not fit. -/
def step (s : Sequent) : Request → Except Reason Step
  | .hypothesis => s.byHypothesis
  | .intro => s.intro
  | .implIntro => s.implIntro
  | .implIntros => .ok s.implIntros
  | .elim i => s.elim i
  | .modusPonens b => .ok ⟨.modusPonens, [⟨s.hyps, .impl b s.concl⟩, ⟨s.hyps, b⟩]⟩
  | .disjIntroLeft => s.disjIntroLeft
  | .disjIntroRight => s.disjIntroRight
  | .disjElim a b =>
    .ok ⟨.disjunctionElim,
      [⟨s.hyps, .disj a b⟩, ⟨s.extended [a], s.concl⟩, ⟨s.extended [b], s.concl⟩]⟩
  | .conjIntro => s.conjIntro
  | .conjElim a b => .ok ⟨.conjunctionElim, [⟨s.hyps, .conj a b⟩, ⟨s.extended [a, b], s.concl⟩]⟩
  | .exfalso => .ok ⟨.exfalso, [⟨s.hyps, .falsity⟩]⟩
  | .weaken is => s.weaken is

/-- Applies a request. -/
def apply (s : Sequent) (r : Request) : Except NotApplicable Step :=
  match s.step r with
  | .error reason => .error ⟨r, reason⟩
  | .ok step => .ok step

end Sequent

/-- Why a call fails: it is no request, or the request does not fit. -/
inductive CallError where
  | request (e : RequestError)
  | notApplicable (e : NotApplicable)
deriving DecidableEq

/-- The message of an error. -/
def CallError.message : CallError → String
  | request e => e.message
  | notApplicable e => e.message

/-- Checks a call, then applies the request it is. -/
def Sequent.applyCall (s : Sequent) (call : Call) : Except CallError Step :=
  match call.check with
  | .error e => .error (.request e)
  | .ok r =>
    match s.apply r with
    | .error e => .error (.notApplicable e)
    | .ok step => .ok step

end Sequitur
