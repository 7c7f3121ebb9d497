/-!
# Sequitur.Console.Pager

A part of the screen that shows some rows of a longer text.
-/

namespace Sequitur

/-- Rows of text, of which `height` are shown from the one at `top` on. -/
structure Pager where
  rows : List String := []
  height : Nat := 0
  top : Nat := 0
deriving DecidableEq

namespace Pager

/-- The last row that can be at the top. -/
def lowest (p : Pager) : Nat := p.rows.length - p.height

/-- Puts a row at the top, or the last one that can be there. -/
def scrollTo (n : Nat) (p : Pager) : Pager := { p with top := min n p.lowest }

/-- Shows the end of other rows. -/
def showEnd (rows : List String) (p : Pager) : Pager :=
  let q := { p with rows }
  q.scrollTo q.lowest

/-- Moves up by a screenful. -/
def pageUp (p : Pager) : Pager := p.scrollTo (p.top - p.height)

/-- Moves down by a screenful. -/
def pageDown (p : Pager) : Pager := p.scrollTo (p.top + p.height)

/-- The rows that are shown, with empty ones below them. -/
def visible (p : Pager) : List String :=
  let rows := (p.rows.drop p.top).take p.height
  rows ++ List.replicate (p.height - rows.length) ""

end Pager

end Sequitur
