import Mathlib.Data.Char
import Mathlib.Data.List.Lex
import Mathlib.Order.Basic
import Sequitur.Proofs.Logic.Kripke
import Sequitur.Validity.Check

/-!
# Sequitur.Proofs.Logic.Valuation

Classical truth.  A valuation gives every variable a value, and with it every
formula has one.  A valuation refutes a sequent if it makes all hypotheses
true and the conclusion false; a sequent is classically valid if none does.

Only the variables that occur matter (`eval_congr`), and `Formula.vars` lists
each of them once (`mem_vars`, `nodup_vars`).  A valuation is a Kripke model
with a single world (`forces_ofValuation`), so what holds in every Kripke
model is classically valid.
-/

namespace Sequitur

/-- Values for all variables. -/
abbrev Valuation := Name → Bool

/-- The value of two formulas joined by a connective. -/
def Connective.eval : Connective → Bool → Bool → Bool
  | conj, a, b => a && b
  | disj, a, b => a || b
  | impl, a, b => !a || b
  | equiv, a, b => a == b

namespace Formula

/-- The value of a formula. -/
def eval (v : Valuation) : Formula → Bool
  | falsity => false
  | var x => v x
  | bin c l r => c.eval (l.eval v) (r.eval v)

/-- Whether a variable occurs in a formula. -/
def Occurs (x : Name) : Formula → Prop
  | falsity => False
  | var y => x = y
  | bin _ l r => l.Occurs x ∨ r.Occurs x

instance decidableOccurs (x : Name) : (p : Formula) → Decidable (p.Occurs x)
  | falsity => inferInstanceAs (Decidable False)
  | var y => inferInstanceAs (Decidable (x = y))
  | bin _ l r =>
    have := decidableOccurs x l
    have := decidableOccurs x r
    inferInstanceAs (Decidable (l.Occurs x ∨ r.Occurs x))

@[simp] theorem eval_falsity (v : Valuation) : falsity.eval v = false := rfl

@[simp] theorem eval_var (v : Valuation) (x : Name) : (var x).eval v = v x := rfl

@[simp] theorem eval_bin (v : Valuation) (c : Connective) (l r : Formula) :
    (bin c l r).eval v = c.eval (l.eval v) (r.eval v) := rfl

@[simp] theorem not_occurs_falsity {x : Name} : ¬ falsity.Occurs x := id

@[simp] theorem occurs_var {x y : Name} : (var y).Occurs x ↔ x = y := Iff.rfl

@[simp] theorem occurs_bin {x : Name} {c : Connective} {l r : Formula} :
    (bin c l r).Occurs x ↔ l.Occurs x ∨ r.Occurs x := Iff.rfl

/-- The value of a formula depends on the variables that occur in it only. -/
theorem eval_congr {v w : Valuation} {p : Formula} (h : ∀ x, p.Occurs x → v x = w x) :
    p.eval v = p.eval w := by
  induction p with
  | falsity => rfl
  | var x => exact h x rfl
  | bin c l r ihl ihr =>
      have hl : l.eval v = l.eval w := ihl fun x hx => h x (.inl hx)
      have hr : r.eval v = r.eval w := ihr fun x hx => h x (.inr hx)
      rw [eval_bin, eval_bin, hl, hr]

end Formula

/-! ## The list of variables -/

theorem Name.chars_injective : Function.Injective Name.chars := by
  rintro ⟨first, later⟩ ⟨first', later'⟩ h
  simp only [Name.chars, List.cons.injEq] at h
  obtain ⟨hfirst, hlater⟩ := h
  rw [Subtype.ext hfirst, List.map_injective_iff.mpr Subtype.val_injective hlater]

theorem Name.mem_insert {x y : Name} {names : List Name} :
    y ∈ x.insert names ↔ y = x ∨ y ∈ names := by
  induction names with
  | nil => simp [Name.insert]
  | cons z zs ih =>
      rw [Name.insert]
      split
      · next hxz =>
          subst hxz
          simp
      · split
        · simp
        · simp only [List.mem_cons, ih]
          exact or_left_comm

/-- Names in strictly increasing order. -/
def Name.Increasing (names : List Name) : Prop := names.Pairwise fun x y => x.chars < y.chars

theorem Name.Increasing.nodup {names : List Name} (h : Name.Increasing names) : names.Nodup := by
  refine List.Pairwise.imp ?_ h
  rintro x y hlt rfl
  exact List.lt_irrefl x.chars hlt

theorem Name.Increasing.insert {x : Name} {names : List Name} (h : Name.Increasing names) :
    Name.Increasing (x.insert names) := by
  induction names with
  | nil => exact List.pairwise_singleton _ x
  | cons z zs ih =>
      obtain ⟨hz, hzs⟩ := List.pairwise_cons.mp h
      rw [Name.insert]
      split
      · exact h
      · next hne =>
          split
          · next hlt =>
              refine List.pairwise_cons.mpr ⟨?_, h⟩
              intro y hy
              rcases List.mem_cons.mp hy with rfl | hy
              · exact hlt
              · exact List.lt_trans hlt (hz y hy)
          · next hge =>
              -- names that differ have different characters, and these are compared
              have hlt : z.chars < x.chars := by
                rcases lt_trichotomy x.chars z.chars with hxz | heq | hzx
                · exact absurd hxz hge
                · exact absurd (Name.chars_injective heq) hne
                · exact hzx
              refine List.pairwise_cons.mpr ⟨?_, ih hzs⟩
              intro y hy
              rcases Name.mem_insert.mp hy with rfl | hy
              · exact hlt
              · exact hz y hy

namespace Formula

theorem mem_addVars {x : Name} {p : Formula} {names : List Name} :
    x ∈ p.addVars names ↔ p.Occurs x ∨ x ∈ names := by
  induction p generalizing names with
  | falsity => simp [addVars]
  | var y => rw [addVars, Name.mem_insert, occurs_var]
  | bin c l r ihl ihr => rw [addVars, ihr, ihl, occurs_bin, or_assoc, or_left_comm]

theorem increasing_addVars {p : Formula} {names : List Name} (h : Name.Increasing names) :
    Name.Increasing (p.addVars names) := by
  induction p generalizing names with
  | falsity => exact h
  | var x => exact h.insert
  | bin c l r ihl ihr => exact ihr (ihl h)

/-- The variables that are listed are those that occur. -/
theorem mem_vars {x : Name} {ps : List Formula} : x ∈ vars ps ↔ ∃ p ∈ ps, p.Occurs x := by
  have hfold : ∀ names, x ∈ ps.foldl (fun names p => p.addVars names) names ↔
      (∃ p ∈ ps, p.Occurs x) ∨ x ∈ names := by
    induction ps with
    | nil => simp
    | cons p ps ih =>
        intro names
        rw [List.foldl_cons, ih, mem_addVars, List.exists_mem_cons_iff, or_left_comm, or_assoc]
  rw [vars, hfold, or_iff_left List.not_mem_nil]

theorem increasing_vars (ps : List Formula) : Name.Increasing (vars ps) := by
  have hfold : ∀ names, Name.Increasing names →
      Name.Increasing (ps.foldl (fun names p => p.addVars names) names) := by
    induction ps with
    | nil => exact fun _ h => h
    | cons p ps ih => exact fun names h => ih _ (increasing_addVars h)
  exact hfold [] List.Pairwise.nil

/-- No variable is listed twice. -/
theorem nodup_vars (ps : List Formula) : (vars ps).Nodup := (increasing_vars ps).nodup

end Formula

/-! ## Sequents -/

namespace Sequent

/-- Whether a variable occurs in a sequent. -/
def Mentions (s : Sequent) (x : Name) : Prop := ∃ p ∈ s.formulas, p.Occurs x

instance (s : Sequent) : DecidablePred s.Mentions := fun x =>
  inferInstanceAs (Decidable (∃ p ∈ s.formulas, p.Occurs x))

/-- A valuation refutes a sequent if it makes the hypotheses true and the
conclusion false. -/
def RefutedBy (s : Sequent) (v : Valuation) : Prop :=
  (∀ h ∈ s.hyps, h.eval v = true) ∧ s.concl.eval v = false

/-- A sequent is classically valid if every valuation that makes all
hypotheses true makes the conclusion true. -/
def IsClassicallyValid (s : Sequent) : Prop :=
  ∀ v : Valuation, (∀ h ∈ s.hyps, h.eval v = true) → s.concl.eval v = true

theorem isClassicallyValid_iff {s : Sequent} :
    s.IsClassicallyValid ↔ ∀ v, ¬ s.RefutedBy v := by
  simp [IsClassicallyValid, RefutedBy]

theorem mem_vars_formulas {s : Sequent} {x : Name} :
    x ∈ Formula.vars s.formulas ↔ s.Mentions x := Formula.mem_vars

theorem mentions_of_mem_hyps {s : Sequent} {p : Formula} {x : Name} (hp : p ∈ s.hyps)
    (hx : p.Occurs x) : s.Mentions x :=
  ⟨p, List.mem_append_left _ hp, hx⟩

theorem mentions_of_concl {s : Sequent} {x : Name} (hx : s.concl.Occurs x) : s.Mentions x :=
  ⟨s.concl, List.mem_append_right _ List.mem_cons_self, hx⟩

/-- Whether a valuation refutes a sequent depends on the variables of the
sequent only. -/
theorem refutedBy_congr {s : Sequent} {v w : Valuation} (h : ∀ x, s.Mentions x → v x = w x) :
    s.RefutedBy v ↔ s.RefutedBy w := by
  have hhyp : ∀ p ∈ s.hyps, p.eval v = p.eval w := fun p hp =>
    Formula.eval_congr fun x hx => h x (mentions_of_mem_hyps hp hx)
  have hconcl : s.concl.eval v = s.concl.eval w :=
    Formula.eval_congr fun x hx => h x (mentions_of_concl hx)
  rw [RefutedBy, RefutedBy, hconcl]
  refine and_congr_left' (forall₂_congr fun p hp => ?_)
  rw [hhyp p hp]

end Sequent

/-! ## Valuations as Kripke models -/

namespace KripkeModel

/-- The Kripke model with a single world, in which the variables have the
values of a valuation. -/
def ofValuation (v : Valuation) : KripkeModel where
  World := Unit
  order := PUnit.instLinearOrder.toPreorder
  truth _ x := v x = true
  truth_mono _ h := h

/-- What the world forces is what the valuation makes true. -/
theorem forces_ofValuation {v : Valuation} {w : (ofValuation v).World} {p : Formula} :
    (ofValuation v).Forces w p ↔ p.eval v = true := by
  have hlater : ∀ {P : (ofValuation v).World → Prop}, (∀ u, w ≤ u → P u) ↔ P w := by
    intro P
    exact ⟨fun h => h w (le_refl w), fun h _ _ => h⟩
  induction p with
  | falsity => simp
  | var x => exact Iff.rfl
  | bin c l r ihl ihr =>
      cases c with
      | conj => simp [Connective.eval, ihl, ihr]
      | disj => simp [Connective.eval, ihl, ihr]
      | impl =>
          simp only [forces_impl, hlater, ihl, ihr]
          cases hl : l.eval v <;> simp [Connective.eval, hl]
      | equiv =>
          simp only [forces_equiv, forces_impl, hlater, ihl, ihr]
          cases hl : l.eval v <;> cases hr : r.eval v <;> simp [Connective.eval, hl, hr]

theorem not_holds_ofValuation {v : Valuation} {s : Sequent} (h : s.RefutedBy v) :
    ¬ (ofValuation v).Holds s := by
  intro hholds
  have hconcl : s.concl.eval v = true :=
    forces_ofValuation.mp (hholds () fun p hp => forces_ofValuation.mpr (h.1 p hp))
  rw [h.2] at hconcl
  contradiction

end KripkeModel

/-- A sequent that holds in every Kripke model is classically valid. -/
theorem Sequent.IsValid.isClassicallyValid {s : Sequent} (h : s.IsValid.{0}) :
    s.IsClassicallyValid :=
  Sequent.isClassicallyValid_iff.mpr fun v hv =>
    KripkeModel.not_holds_ofValuation hv (h (KripkeModel.ofValuation v))

end Sequitur
