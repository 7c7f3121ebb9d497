import Sequitur.Formula.Token

/-!
# Sequitur.Formula.Group

Tokens nested by their parentheses.  An item is a token that is no
parenthesis, or a group: the items between an opening parenthesis and the
closing one that matches it.  With the tokens so nested, a parser need not
keep track of depth.
-/

namespace Sequitur

/-- A token, or the items between two matching parentheses, with the offset
of the opening one. -/
inductive Item where
  | token (t : Token)
  | group (opening : Nat) (items : List Item)

namespace Item

/-- Items that have been collected, and the tokens that remain, `n` at most. -/
abbrev Found (n : Nat) := { found : List Item × List Token // found.2.length ≤ n }

/-- What was found in fewer tokens was found in more. -/
def Found.widen {n m : Nat} (h : n ≤ m) (r : Except LexError (Found n)) :
    Except LexError (Found m) :=
  r.map fun found => ⟨found.val, Nat.le_trans found.property h⟩

/-- Collects items up to the closing parenthesis that matches the one at the
offset `opening`, or up to the end of the tokens if there is no such
parenthesis.  `done` holds the items collected so far, last first.  The
tokens that remain start with the closing parenthesis, unless none are left.

What is between two parentheses is collected first, and then the rest from
the closing one on. -/
def collect (opening : Option Nat) (done : List Item) : (ts : List Token) →
    Except LexError (Found ts.length)
  | [] => .ok ⟨(done.reverse, []), Nat.le_refl _⟩
  | t :: ts =>
    match t.lexeme with
    | .lparen =>
      match collect (some t.offset) [] ts with
      | .error e => .error e
      | .ok ⟨(_, []), _⟩ => .error ⟨t.offset, .unclosed⟩
      | .ok ⟨(items, _ :: rest), hrest⟩ =>
        have hshorter : rest.length < (t :: ts).length := Nat.lt_succ_of_lt hrest
        Found.widen (Nat.le_of_lt hshorter) (collect opening (.group t.offset items :: done) rest)
    | .rparen =>
      match opening with
      | none => .error ⟨t.offset, .unopened⟩
      | some _ => .ok ⟨(done.reverse, t :: ts), Nat.le_refl _⟩
    | _ => Found.widen (Nat.le_succ _) (collect opening (.token t :: done) ts)
termination_by ts => ts.length
decreasing_by
  · exact Nat.lt_succ_self _
  · exact hshorter
  · exact Nat.lt_succ_self _

/-- The items that are collected, and the tokens that remain. -/
def collected (opening : Option Nat) (done : List Item) (ts : List Token) :
    Except LexError (List Item × List Token) :=
  (collect opening done ts).map (·.val)

/-- Nests the tokens of a text by their parentheses. -/
def nest (tokens : List Token) : Except LexError (List Item) :=
  (collected none [] tokens).map (·.1)

end Item

end Sequitur
