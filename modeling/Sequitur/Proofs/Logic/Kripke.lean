import Mathlib.Data.Bool.Basic
import Sequitur.Sequent.Basic

/-!
# Sequitur.Proofs.Logic.Kripke

Kripke models of intuitionistic propositional logic.  A model has worlds,
ordered by what is known in them, and variables that stay true once they
are true.  An implication is forced where every later world that forces its
left side forces its right side; an equivalence is forced where both
implications are.

A sequent holds in a model if each world that forces all hypotheses forces
the conclusion, and is valid if it holds in every model.  Forcing persists
to later worlds (`Forces.mono`), which is what makes the introduction of an
implication sound under hypotheses.
-/

universe u

namespace Sequitur

/-- A Kripke model of intuitionistic propositional logic. -/
structure KripkeModel where
  /-- The worlds. -/
  World : Type u
  /-- The order of the worlds: `w ≤ v` if `v` may come after `w`. -/
  [order : Preorder World]
  /-- The variables that are true in a world. -/
  truth : World → Name → Prop
  /-- What is true stays true. -/
  truth_mono : ∀ {w v : World} {x : Name}, w ≤ v → truth w x → truth v x

namespace KripkeModel

attribute [instance] KripkeModel.order

variable {M : KripkeModel.{u}} {w v : M.World}

/-- Whether a world forces a formula. -/
def Forces (M : KripkeModel.{u}) : M.World → Formula → Prop
  | _, .falsity => False
  | w, .var x => M.truth w x
  | w, .bin .conj l r => M.Forces w l ∧ M.Forces w r
  | w, .bin .disj l r => M.Forces w l ∨ M.Forces w r
  | w, .bin .impl l r => ∀ v, w ≤ v → M.Forces v l → M.Forces v r
  | w, .bin .equiv l r =>
    (∀ v, w ≤ v → M.Forces v l → M.Forces v r) ∧ (∀ v, w ≤ v → M.Forces v r → M.Forces v l)

/-- Whether a world forces all formulas of a list. -/
def ForcesAll (M : KripkeModel.{u}) (w : M.World) (ps : List Formula) : Prop :=
  ∀ p ∈ ps, M.Forces w p

/-- A sequent holds in a model if each world that forces all hypotheses
forces the conclusion. -/
def Holds (M : KripkeModel.{u}) (s : Sequent) : Prop :=
  ∀ w, M.ForcesAll w s.hyps → M.Forces w s.concl

/-! ## Forcing a connective -/

@[simp] theorem not_forces_falsity : ¬ M.Forces w .falsity := id

@[simp] theorem forces_var {x : Name} : M.Forces w (.var x) ↔ M.truth w x := Iff.rfl

@[simp] theorem forces_conj {l r : Formula} :
    M.Forces w (.conj l r) ↔ M.Forces w l ∧ M.Forces w r := Iff.rfl

@[simp] theorem forces_disj {l r : Formula} :
    M.Forces w (.disj l r) ↔ M.Forces w l ∨ M.Forces w r := Iff.rfl

@[simp] theorem forces_impl {l r : Formula} :
    M.Forces w (.impl l r) ↔ ∀ v, w ≤ v → M.Forces v l → M.Forces v r := Iff.rfl

/-- An equivalence is forced as its two implications. -/
@[simp] theorem forces_equiv {l r : Formula} :
    M.Forces w (.equiv l r) ↔ M.Forces w (.impl l r) ∧ M.Forces w (.impl r l) := Iff.rfl

/-! ## Persistence -/

/-- What a world forces, later worlds force. -/
theorem Forces.mono {p : Formula} (hle : w ≤ v) (h : M.Forces w p) : M.Forces v p := by
  induction p generalizing w v with
  | falsity => exact h
  | var x => exact M.truth_mono hle h
  | bin c l r ihl ihr =>
      cases c with
      | conj => exact ⟨ihl hle h.1, ihr hle h.2⟩
      | disj => exact h.imp (ihl hle) (ihr hle)
      | impl => exact fun u hvu => h u (le_trans hle hvu)
      | equiv =>
          exact ⟨fun u hvu => h.1 u (le_trans hle hvu), fun u hvu => h.2 u (le_trans hle hvu)⟩

theorem ForcesAll.mono {ps : List Formula} (hle : w ≤ v) (h : M.ForcesAll w ps) :
    M.ForcesAll v ps :=
  fun p hp => (h p hp).mono hle

/-! ## Lists of hypotheses -/

@[simp] theorem forcesAll_nil : M.ForcesAll w [] := fun _ hp => absurd hp List.not_mem_nil

@[simp] theorem forcesAll_cons {p : Formula} {ps : List Formula} :
    M.ForcesAll w (p :: ps) ↔ M.Forces w p ∧ M.ForcesAll w ps :=
  List.forall_mem_cons

@[simp] theorem forcesAll_append {ps qs : List Formula} :
    M.ForcesAll w (ps ++ qs) ↔ M.ForcesAll w ps ∧ M.ForcesAll w qs :=
  List.forall_mem_append

/-- Fewer hypotheses are forced more easily. -/
theorem ForcesAll.of_subset {ps qs : List Formula} (h : M.ForcesAll w qs) (hsub : ps ⊆ qs) :
    M.ForcesAll w ps :=
  fun p hp => h p (hsub hp)

end KripkeModel

/-- A sequent is valid if it holds in every Kripke model. -/
def Sequent.IsValid (s : Sequent) : Prop := ∀ M : KripkeModel.{u}, M.Holds s

/-! ## A countermodel -/

namespace KripkeModel

/-- Two worlds, one after the other.  In the later one `x` is true, and
nothing else is true anywhere. -/
def learning (x : Name) : KripkeModel where
  World := Bool
  order := Bool.linearOrder.toPreorder
  truth later y := later = true ∧ y = x
  truth_mono := by
    rintro w v y hle ⟨rfl, rfl⟩
    exact ⟨Bool.eq_true_of_true_le hle, rfl⟩

/-- In no model with a world does falsity hold. -/
theorem learning_not_holds_falsity (x : Name) : ¬ (learning x).Holds ⟨[], .falsity⟩ :=
  fun h => h false forcesAll_nil

/-- Early on `x` is not true, and it is too early to rule it out. -/
theorem learning_not_holds_excludedMiddle (x : Name) :
    ¬ (learning x).Holds ⟨[], .disj (.var x) (.neg (.var x))⟩ := by
  intro h
  rcases h false forcesAll_nil with hx | hneg
  · exact absurd hx.1 Bool.false_ne_true
  · exact hneg true (Bool.false_le true) ⟨rfl, rfl⟩

/-- Early on `x` does not imply `y`, nor does it later, so that `x` follows
from this implication; but it is not true. -/
theorem learning_not_holds_peirce {x y : Name} (hxy : x ≠ y) :
    ¬ (learning x).Holds
      ⟨[], .impl (.impl (.impl (.var x) (.var y)) (.var x)) (.var x)⟩ := by
  intro h
  have hx : (learning x).truth false x := by
    apply h false forcesAll_nil false (le_refl false)
    intro v _ himpl
    have hy : (learning x).truth true y := himpl true (Bool.le_true v) ⟨rfl, rfl⟩
    exact absurd hy.2.symm hxy
  exact absurd hx.1 Bool.false_ne_true

end KripkeModel

end Sequitur
