import Std.Data.TreeSet
import Sequitur.Validity.Clause

/-!
# Sequitur.Validity.Refutation

Proofs that clauses cannot hold together.  Such a proof is a list of
clauses, each of which follows from the given ones and those before it, and
of which one is empty.

That a clause follows is shown by denying its literals and going through
some clauses one by one, each of which has a single literal left that is not
denied, so this literal has to hold.  At the end there is a clause of which
nothing is left.

`refutes_false` says that clauses which hold together have no refutation.
-/

namespace Sequitur

/-- Whether a literal holds when variables have the given values. -/
def Literal.holds (v : Nat → Bool) (l : Literal) : Bool := v l.natAbs == decide (0 < l)

/-- Whether a clause holds when variables have the given values. -/
def Clause.holds (v : Nat → Bool) (c : Clause) : Bool := c.any (Literal.holds v)

/-- A literal and its opposite do not hold together, and one of them does. -/
theorem Literal.holds_neg (v : Nat → Bool) {l : Int} (hl : l ≠ 0) :
    Literal.holds v (-l) = !Literal.holds v l := by
  have opposite : decide (0 < -l) = !decide (0 < l) := by
    rw [← decide_not]
    exact decide_eq_decide.2 (by omega)
  rw [Literal.holds, Literal.holds, Int.natAbs_neg, opposite]
  cases v l.natAbs <;> cases decide (0 < l) <;> rfl

/-- A clause that follows from clauses, which are given by their positions
in the order of their use. -/
structure Derived where
  clause : Clause
  sources : List Nat
deriving DecidableEq

namespace Refutation

/-- A set of literals. -/
abbrev LiteralSet := Std.TreeSet Literal compare

/-- The literals of a clause that are not denied. -/
def left (known : LiteralSet) (c : Clause) : Clause :=
  c.filter fun l => l = 0 || !known.contains (-l)

/-- Adds the opposites of literals. -/
def denied (known : LiteralSet) : Clause → LiteralSet
  | [] => known
  | l :: ls => denied (if l = 0 then known else known.insert (-l)) ls

/-- Goes through clauses, adding the literals that have to hold. -/
def leadsNowhere (clauses : Array Clause) (known : LiteralSet) : List Nat → Bool
  | [] => false
  | i :: is =>
    match clauses[i]? with
    | none => false
    | some c =>
      match left known c with
      | [] => true
      | l :: ls => ls.all (· = l) && leadsNowhere clauses (known.insert l) is

/-- Whether a clause follows from clauses in the way it says. -/
def follows (clauses : Array Clause) (d : Derived) : Bool :=
  leadsNowhere clauses (denied ∅ d.clause) d.sources

/-- Whether derived clauses are a refutation of clauses. -/
def refutes (clauses : Array Clause) : List Derived → Bool
  | [] => false
  | d :: ds => follows clauses d && (d.clause.isEmpty || refutes (clauses.push d.clause) ds)

/-! ## Soundness -/

/-- All literals of a set hold. -/
def AllHold (v : Nat → Bool) (known : LiteralSet) : Prop :=
  ∀ l ∈ known, Literal.holds v l = true

/-- A set of literals that hold can be extended by one. -/
theorem AllHold.insert {v : Nat → Bool} {known : LiteralSet} (h : AllHold v known) {l : Literal}
    (hl : Literal.holds v l = true) : AllHold v (known.insert l) := by
  intro k hk
  rcases Std.TreeSet.mem_insert.1 hk with e | hk
  · rw [← Std.LawfulEqCmp.eq_of_compare e]; exact hl
  · exact h k hk

/-- The opposites of the literals of a clause hold if the clause does not. -/
theorem allHold_denied {v : Nat → Bool} {c : Clause} (hc : Clause.holds v c = false) :
    ∀ {known : LiteralSet}, AllHold v known → AllHold v (denied known c) := by
  induction c with
  | nil => intro known h; exact h
  | cons l ls ih =>
    intro known h
    simp only [Clause.holds, List.any_cons, Bool.or_eq_false_iff] at hc
    refine ih hc.2 ?_
    split
    · exact h
    · rename_i hl
      exact h.insert (by rw [Literal.holds_neg v hl, hc.1]; rfl)

/-- A clause that holds has a literal left that holds. -/
theorem exists_left {v : Nat → Bool} {known : LiteralSet} (h : AllHold v known) {c : Clause}
    (hc : Clause.holds v c = true) : ∃ l ∈ left known c, Literal.holds v l = true := by
  obtain ⟨l, hl, hv⟩ := List.any_eq_true.1 hc
  refine ⟨l, List.mem_filter.2 ⟨hl, ?_⟩, hv⟩
  by_cases h0 : l = 0
  · simp [h0]
  · have hnot : ¬ (-l) ∈ known := fun hk => by
      have := h _ hk
      rw [Literal.holds_neg v h0, hv] at this
      simp at this
    simp [h0, Bool.eq_false_iff.2 (mt Std.TreeSet.mem_iff_contains.2 hnot)]

/-- Where clauses and literals hold together, going through the clauses does
not lead nowhere. -/
theorem leadsNowhere_false {v : Nat → Bool} {clauses : Array Clause}
    (hcs : ∀ c ∈ clauses, Clause.holds v c = true) (is : List Nat) :
    ∀ {known : LiteralSet}, AllHold v known → leadsNowhere clauses known is = false := by
  induction is with
  | nil => intro known _; rfl
  | cons i is ih =>
    intro known h
    simp only [leadsNowhere]
    split
    · rfl
    · rename_i c hi
      obtain ⟨l, hl, hv⟩ := exists_left h (hcs c (Array.mem_of_getElem? hi))
      split
      · rename_i e
        rw [e] at hl
        simp at hl
      · rename_i k ks e
        rw [Bool.and_eq_false_imp]
        intro hall
        have hk : k = l := by
          rw [e] at hl
          rcases List.mem_cons.1 hl with rfl | hl
          · rfl
          · exact (of_decide_eq_true (List.all_eq_true.1 hall l hl)).symm
        exact ih (h.insert (by rw [hk]; exact hv))

/-- A clause that follows holds where the clauses do. -/
theorem holds_of_follows {v : Nat → Bool} {clauses : Array Clause}
    (hcs : ∀ c ∈ clauses, Clause.holds v c = true) {d : Derived} (hd : follows clauses d = true) :
    Clause.holds v d.clause = true := by
  cases h : Clause.holds v d.clause with
  | true => rfl
  | false =>
    have empty : AllHold v ∅ := fun l hl => by simp at hl
    have := leadsNowhere_false hcs d.sources (allHold_denied h empty)
    rw [follows, this] at hd
    simp at hd

/-- Clauses that hold together have no refutation. -/
theorem refutes_false {v : Nat → Bool} (ds : List Derived) :
    ∀ {clauses : Array Clause}, (∀ c ∈ clauses, Clause.holds v c = true) →
      refutes clauses ds = false := by
  induction ds with
  | nil => intro clauses _; rfl
  | cons d ds ih =>
    intro clauses hcs
    simp only [refutes, Bool.and_eq_false_imp]
    intro hd
    have hv := holds_of_follows hcs hd
    have hne : d.clause.isEmpty = false := by
      cases e : d.clause with
      | nil => rw [e] at hv; simp [Clause.holds] at hv
      | cons => rfl
    rw [hne, Bool.false_or]
    refine ih fun c hc => ?_
    rcases Array.mem_push.1 hc with hc | rfl
    · exact hcs c hc
    · exact hv

end Refutation

end Sequitur
