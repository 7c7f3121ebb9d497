import Sequitur.Sequent.Basic
import Sequitur.Rule.Request

/-!
# Sequitur.Validity.Clause

Sequents in clause form.  A sequent is classically valid when its
hypotheses and the negation of its conclusion have no common model.  These
formulas are put into clauses by giving each compound subformula a fresh
variable, together with the clauses that make the variable equivalent to
it, so the clauses grow linearly with the sequent.

Variables are numbered from 1 in the order in which they are met.  A
literal is a variable or its opposite number.  A variable of the sequent
and falsity have one number each, shared by all their occurrences;
compound subformulas are not shared.
-/

namespace Sequitur

/-- A variable, or the negation of the opposite one. -/
abbrev Literal := Int

/-- A disjunction of literals. -/
abbrev Clause := List Literal

/-- The clauses written so far, and the numbers given to variables. -/
structure ClauseForm where
  /-- How many variables have been numbered. -/
  count : Nat
  /-- The numbers of the variables of the sequent, in the order met. -/
  vars : List (Name × Nat)
  /-- The number of the variable that stands for falsity. -/
  falsity : Option Nat
  clauses : List Clause
deriving DecidableEq

namespace ClauseForm

/-- No clause and no variable. -/
def empty : ClauseForm := { count := 0, vars := [], falsity := none, clauses := [] }

/-- Adds clauses at the end. -/
def add (f : ClauseForm) (clauses : List Clause) : ClauseForm :=
  { f with clauses := f.clauses ++ clauses }

/-- Numbers a fresh variable. -/
def fresh (f : ClauseForm) : Nat × ClauseForm := (f.count + 1, { f with count := f.count + 1 })

/-- The number of a variable of the sequent, given on first use. -/
def number (f : ClauseForm) (x : Name) : Nat × ClauseForm :=
  match f.vars.lookup x with
  | some n => (n, f)
  | none =>
    let (n, g) := f.fresh
    (n, { g with vars := g.vars ++ [(x, n)] })

/-- The variable that stands for falsity, numbered on first use and then
declared false. -/
def falsum (f : ClauseForm) : Nat × ClauseForm :=
  match f.falsity with
  | some n => (n, f)
  | none =>
    let (n, g) := f.fresh
    (n, { g with falsity := some n }.add [[-(n : Int)]])

/-- The clauses that make `x` equivalent to `a` and `b` joined by a connective. -/
def definition (x a b : Literal) : Connective → List Clause
  | .conj => [[-x, a], [-x, b], [x, -a, -b]]
  | .disj => [[-x, a, b], [x, -a], [x, -b]]
  | .impl => [[-x, -a, b], [x, a], [x, -b]]
  | .equiv => [[-x, -a, b], [-x, a, -b], [x, a, b], [x, -a, -b]]

/-- A variable equivalent to a formula, with the clauses that make it so. -/
def define (f : ClauseForm) : Formula → Nat × ClauseForm
  | .falsity => f.falsum
  | .var x => f.number x
  | .bin c l r =>
    let (a, f) := f.define l
    let (b, f) := f.define r
    let (x, f) := f.fresh
    (x, f.add (definition x a b c))

/-- Asserts hypotheses: the variable of each, and the clause form. -/
def assertAll (f : ClauseForm) : List Formula → List Nat × ClauseForm
  | [] => ([], f)
  | h :: hs =>
    let (x, f) := f.define h
    let (xs, f) := (f.add [[(x : Int)]]).assertAll hs
    (x :: xs, f)

/-- Denies a conclusion. -/
def deny (f : ClauseForm) (p : Formula) : ClauseForm :=
  let (x, f) := f.define p
  f.add [[-(x : Int)]]

end ClauseForm

/-- The variables of the hypotheses of a sequent, and the clauses that hold
where the hypotheses do and the conclusion does not. -/
def Sequent.encode (s : Sequent) : List Nat × ClauseForm :=
  let (xs, f) := ClauseForm.empty.assertAll s.hyps
  (xs, f.deny s.concl)

/-- The clauses that hold where the hypotheses of a sequent do and its
conclusion does not. -/
def Sequent.clauseForm (s : Sequent) : ClauseForm := s.encode.2

namespace ClauseForm

/-- A clause on a line of its own, ended by zero. -/
def clauseLine (c : Clause) : String :=
  Request.joined " " (c.map toString) ++ " 0\n"

/-- Clauses as lines. -/
def clauseLines : List Clause → String
  | [] => ""
  | c :: cs => clauseLine c ++ clauseLines cs

/-- A clause form in the DIMACS exchange format. -/
def dimacs (f : ClauseForm) : String :=
  "p cnf " ++ toString f.count ++ " " ++ toString f.clauses.length ++ "\n" ++ clauseLines f.clauses

end ClauseForm

end Sequitur
