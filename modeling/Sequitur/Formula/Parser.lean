import Sequitur.Formula.Group

/-!
# Sequitur.Formula.Parser

From items to formulas.  The operators bind, from loosest to tightest:
equivalence, implication, disjunction, conjunction, negation.  A chain of one
connective associates to the right.

Items are cut at the operator that binds loosest, at the leftmost of several.
What stands on its two sides is read in the same way, from left to right, so
that of two faults the leftmost is reported.  An item that stands alone is a
name, falsity or a group.
-/

namespace Sequitur

/-- What is wrong with tokens that make no formula. -/
inductive SyntaxFault where
  /-- There is nothing where a formula is expected. -/
  | emptyExpression
  /-- Two operands stand side by side. -/
  | missingOperator
  /-- A negation follows an operand. -/
  | binaryNegation
deriving DecidableEq

/-- The wording of a fault. -/
def SyntaxFault.message : SyntaxFault → String
  | emptyExpression => "empty expression"
  | missingOperator => "operator not found"
  | binaryNegation => "negation is not a binary operator"

/-- Why a text is no formula. -/
inductive FormulaError where
  /-- It does not split into tokens with balanced parentheses. -/
  | lexical (e : LexError)
  /-- Its tokens make no formula. -/
  | grammar (fault : SyntaxFault)
deriving DecidableEq

/-- The message of an error. -/
def FormulaError.message : FormulaError → String
  | lexical e => e.message
  | grammar fault => fault.message

/-! ## Items -/

namespace Item

/-- How loosely an item binds, if it is an operator: negations 1, then the
connectives. -/
def looseness? : Item → Option Nat
  | token ⟨.neg, _⟩ => some 1
  | token ⟨.op c, _⟩ => some c.looseness
  | _ => none

/-- The position of the loosest operator, the first item being at position `i`.
`best` is the position of the loosest one before, and how loosely it binds.
Only a looser one takes its place. -/
def weakestFrom (i : Nat) (best : Option (Nat × Nat)) : List Item → Option Nat
  | [] => best.map (·.1)
  | item :: rest =>
    match item.looseness?, best with
    | none, _ => weakestFrom (i + 1) best rest
    | some n, none => weakestFrom (i + 1) (some (i, n)) rest
    | some n, some (j, m) =>
      if m < n then weakestFrom (i + 1) (some (i, n)) rest
      else weakestFrom (i + 1) (some (j, m)) rest

/-- The position of the operator that binds loosest, the leftmost of several;
none if there is no operator. -/
def weakest? (items : List Item) : Option Nat := weakestFrom 0 none items

mutual

/-- The number of tokens and groups of an item. -/
def weight : Item → Nat
  | token _ => 1
  | group _ items => 1 + weightOf items

/-- The number of tokens and groups of some items. -/
def weightOf : List Item → Nat
  | [] => 0
  | item :: rest => item.weight + weightOf rest

end

theorem weight_pos (item : Item) : 0 < item.weight := by
  cases item with
  | token t => exact Nat.one_pos
  | group opening items => rw [weight]; omega

theorem weightOf_append (items more : List Item) :
    weightOf (items ++ more) = weightOf items + weightOf more := by
  induction items with
  | nil => rw [List.nil_append, weightOf, Nat.zero_add]
  | cons item items ih => rw [List.cons_append, weightOf, weightOf, ih, Nat.add_assoc]

/-- What stands before an item and behind it weighs less than all. -/
theorem weightOf_sides_lt {items : List Item} {i : Nat} {item : Item} (h : items[i]? = some item) :
    weightOf (items.take i) < weightOf items ∧ weightOf (items.drop (i + 1)) < weightOf items := by
  obtain ⟨hi, rfl⟩ := List.getElem?_eq_some_iff.mp h
  have hcut : items.take i ++ items[i] :: items.drop (i + 1) = items := by simp
  have htotal := congrArg weightOf hcut
  have hpos := weight_pos items[i]
  rw [weightOf_append, weightOf] at htotal
  omega

/-- The formula that a list of items makes. -/
def formula : List Item → Except SyntaxFault Formula
  | [] => .error .emptyExpression
  | [token ⟨.name x, _⟩] => .ok (.var x)
  | [token ⟨.falsity, _⟩] => .ok .falsity
  | [group _ items] => formula items
  | items =>
    match weakest? items with
    | none => .error .missingOperator
    | some i =>
      match hi : items[i]? with
      | some (token ⟨.neg, _⟩) =>
        if i ≠ 0 then .error .binaryNegation
        else do
          let p ← formula (items.drop (i + 1))
          .ok p.neg
      | some (token ⟨.op c, _⟩) => do
        let l ← formula (items.take i)
        let r ← formula (items.drop (i + 1))
        .ok (.bin c l r)
      -- no other item is an operator
      | _ => .error .missingOperator
termination_by items => weightOf items
decreasing_by
  · rw [weightOf, weightOf, weight]
    omega
  · exact (weightOf_sides_lt hi).2
  · exact (weightOf_sides_lt hi).1
  · exact (weightOf_sides_lt hi).2

end Item

/-! ## Texts -/

/-- Reads a formula. -/
def Formula.parse (t : Text) : Except FormulaError Formula :=
  match Token.scan t with
  | .error e => .error (.lexical e)
  | .ok tokens =>
    match Item.nest tokens with
    | .error e => .error (.lexical e)
    | .ok items =>
      match Item.formula items with
      | .error fault => .error (.grammar fault)
      | .ok p => .ok p

/-- What is said of a text that was promised to be a formula and is none. -/
def FormulaError.refusal (t : Text) (e : FormulaError) : String :=
  "prop: cannot parse " ++ t.shown ++ ": " ++ e.message

end Sequitur
