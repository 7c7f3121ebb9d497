/-!
# Sequitur.Rule.Kind

The rules of natural deduction, as they are recorded in a proof.  The
primed ones act on a hypothesis directly, where the plain elimination rules
first ask for a proof of the formula they eliminate.
-/

namespace Sequitur

/-- A rule of natural deduction. -/
inductive Rule where
  | hypothesis
  | implicationIntro
  | implicationIntros
  | modusPonens
  | weakModusPonens
  | disjunctionIntroLeft
  | disjunctionIntroRight
  | disjunctionElim
  | disjunctionWeakElim
  | conjunctionIntro
  | conjunctionElim
  | conjunctionWeakElim
  | equivalenceIntro
  | equivalenceWeakElim
  | exfalso
  | weaken
deriving DecidableEq

namespace Rule

/-- All rules, in their usual order. -/
def all : List Rule :=
  [hypothesis, implicationIntro, implicationIntros, modusPonens, weakModusPonens,
    disjunctionIntroLeft, disjunctionIntroRight, disjunctionElim, disjunctionWeakElim,
    conjunctionIntro, conjunctionElim, conjunctionWeakElim, equivalenceIntro,
    equivalenceWeakElim, exfalso, weaken]

/-- The name of a rule. -/
def name : Rule → String
  | hypothesis => "hypothesis"
  | implicationIntro => "implication-intro"
  | implicationIntros => "implication-intros"
  | modusPonens => "modus-ponens"
  | weakModusPonens => "weak-modus-ponens"
  | disjunctionIntroLeft => "disjunction-intro-left"
  | disjunctionIntroRight => "disjunction-intro-right"
  | disjunctionElim => "disjunction-elim"
  | disjunctionWeakElim => "disjunction-weak-elim"
  | conjunctionIntro => "conjunction-intro"
  | conjunctionElim => "conjunction-elim"
  | conjunctionWeakElim => "conjunction-weak-elim"
  | equivalenceIntro => "equivalence-intro"
  | equivalenceWeakElim => "equivalence-weak-elim"
  | exfalso => "exfalso"
  | weaken => "weaken"

/-- The number of premises of a rule. -/
def arity : Rule → Nat
  | hypothesis => 0
  | disjunctionElim => 3
  | modusPonens | disjunctionWeakElim | conjunctionIntro | conjunctionElim | equivalenceIntro => 2
  | _ => 1

/-- The label of a rule beside its inference line, in ASCII. -/
def asciiLabel : Rule → String
  | hypothesis => "h"
  | implicationIntro => "->i"
  | implicationIntros => "->i'"
  | modusPonens => "mp"
  | weakModusPonens => "mp'"
  | disjunctionIntroLeft => "\\/i,l"
  | disjunctionIntroRight => "\\/i,r"
  | disjunctionElim => "\\/e"
  | disjunctionWeakElim => "\\/e'"
  | conjunctionIntro => "/\\i"
  | conjunctionElim => "/\\e"
  | conjunctionWeakElim => "/\\e'"
  | equivalenceIntro => "<->i"
  | equivalenceWeakElim => "<->e'"
  | exfalso => "!e"
  | weaken => "w"

/-- The label of a rule beside its inference line, in Unicode. -/
def unicodeLabel : Rule → String
  | implicationIntro => "➔i"
  | implicationIntros => "➔i'"
  | disjunctionIntroLeft => "∨i,l"
  | disjunctionIntroRight => "∨i,r"
  | disjunctionElim => "∨e"
  | disjunctionWeakElim => "∨e'"
  | conjunctionIntro => "∧i"
  | conjunctionElim => "∧e"
  | conjunctionWeakElim => "∧e'"
  | equivalenceIntro => "↔i"
  | equivalenceWeakElim => "↔e'"
  | exfalso => "⊥e"
  | k => k.asciiLabel

/-- The label of a rule in the chosen alphabet. -/
def label (useUnicode : Bool) (k : Rule) : String :=
  if useUnicode then k.unicodeLabel else k.asciiLabel

end Rule

end Sequitur
