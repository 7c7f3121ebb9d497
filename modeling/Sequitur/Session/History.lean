/-!
# Sequitur.Session.History

A timeline of states with a present.  Steps can be undone and redone; a new
step forgets what was undone.
-/

namespace Sequitur

/-- A present state with the states before and after it. -/
structure History (α : Type) where
  /-- The state everything started from. -/
  root : α
  /-- The states before the present, latest first. -/
  past : List α
  present : α
  /-- The undone states after the present, earliest first. -/
  future : List α
deriving DecidableEq

namespace History

variable {α : Type}

/-- The history of a single state. -/
def start (root : α) : History α := { root, past := [], present := root, future := [] }

/-- All states in order. -/
def timeline (h : History α) : List α := h.past.reverse ++ h.present :: h.future

/-- The number of states before the present. -/
def steps (h : History α) : Nat := h.past.length

/-- Moves on to a new state; undone states are forgotten. -/
def push (h : History α) (a : α) : History α :=
  { h with past := h.present :: h.past, present := a, future := [] }

/-- Goes back one state, if there is one. -/
def undo? (h : History α) : Option (History α) :=
  match h.past with
  | [] => none
  | a :: past => some { h with past, present := a, future := h.present :: h.future }

/-- Goes forward one undone state, if there is one. -/
def redo? (h : History α) : Option (History α) :=
  match h.future with
  | [] => none
  | a :: future => some { h with past := h.present :: h.past, present := a, future }

/-- Goes back to the first state and forgets all others. -/
def reset (h : History α) : History α := start h.root

end History

end Sequitur
