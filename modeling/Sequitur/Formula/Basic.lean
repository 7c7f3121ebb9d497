/-!
# Sequitur.Formula.Basic

Propositional formulas over named variables.  There are four binary
connectives and one constant, falsity.  Negation is not a connective of its
own: the negation of `P` is the implication from `P` to falsity.

A variable name is a letter followed by letters, digits and underscores.
The type `Name` holds nothing else, so every formula over names can be
written down and read back.  Printing needs no more of variables than that
they can be written, so formulas may be over any type; where none is given,
they are over names.
-/

namespace Sequitur

/-! ## Names -/

/-- The ASCII letters, which may start a name. -/
def isLetter (c : Char) : Bool := ('a' ≤ c && c ≤ 'z') || ('A' ≤ c && c ≤ 'Z')

/-- The characters a name may go on with: letters, digits and the underscore. -/
def isNameChar (c : Char) : Bool := isLetter c || ('0' ≤ c && c ≤ '9') || c == '_'

/-- A character that may start a name. -/
abbrev Letter := { c : Char // isLetter c = true }

/-- A character that a name may go on with. -/
abbrev NameChar := { c : Char // isNameChar c = true }

/-- A variable name. -/
structure Name where
  first : Letter
  later : List NameChar
deriving DecidableEq

namespace Name

/-- The characters of a name. -/
def chars (x : Name) : List Char := x.first.val :: x.later.map (·.val)

/-- A name as a string. -/
def toString (x : Name) : String := String.ofList x.chars

instance : ToString Name := ⟨toString⟩

@[simp] theorem toString_eq (x : Name) : ToString.toString x = x.toString := rfl

/-- Inserts a name into an increasing list, unless it is there already. -/
def insert (x : Name) : List Name → List Name
  | [] => [x]
  | y :: ys =>
    if x = y then y :: ys
    else if x.chars < y.chars then x :: y :: ys
    else y :: insert x ys

end Name

/-! ## Formulas -/

/-- The binary connectives. -/
inductive Connective where
  | conj
  | disj
  | impl
  | equiv
deriving DecidableEq

/-- How loosely a connective binds. -/
def Connective.looseness : Connective → Nat
  | conj => 2
  | disj => 3
  | impl => 4
  | equiv => 5

/-- A propositional formula. -/
inductive Formula (ν : Type := Name) where
  | falsity
  | var (x : ν)
  | bin (c : Connective) (l r : Formula ν)
deriving DecidableEq

namespace Formula

/-- The conjunction of two formulas. -/
@[match_pattern] abbrev conj (l r : Formula) : Formula := bin .conj l r

/-- The disjunction of two formulas. -/
@[match_pattern] abbrev disj (l r : Formula) : Formula := bin .disj l r

/-- The implication from one formula to another. -/
@[match_pattern] abbrev impl (l r : Formula) : Formula := bin .impl l r

/-- The equivalence of two formulas. -/
@[match_pattern] abbrev equiv (l r : Formula) : Formula := bin .equiv l r

/-- The negation of a formula: it implies falsity. -/
@[match_pattern] abbrev neg (p : Formula) : Formula := impl p falsity

/-- The formula of which `p` is the negation, if it is one. -/
def negand? : Formula → Option Formula
  | neg p => some p
  | _ => none

/-- The two operands of a formula with a connective. -/
def operands? : Formula → Option (Formula × Formula)
  | bin _ l r => some (l, r)
  | _ => none

/-- The number of nodes of a formula. -/
def size : Formula → Nat
  | falsity => 1
  | var _ => 1
  | bin _ l r => 1 + l.size + r.size

/-- Adds the variables of a formula to an increasing list of names. -/
def addVars : Formula → List Name → List Name
  | falsity, names => names
  | var x, names => x.insert names
  | bin _ l r, names => r.addVars (l.addVars names)

/-- The variables of a list of formulas, increasing and without repetition. -/
def vars (ps : List Formula) : List Name := ps.foldl (fun names p => p.addVars names) []

/-- The position of the first formula of a list that is equal to `p`. -/
def index? (ps : List Formula) (p : Formula) : Option Nat := ps.findIdx? (· = p)

end Formula

end Sequitur
