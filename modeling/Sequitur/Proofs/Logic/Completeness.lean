import Mathlib.Data.Set.Insert
import Sequitur.Proofs.Derivation.Script

/-!
# Sequitur.Proofs.Logic.Completeness

Intuitionistic natural deduction, and that the requests are enough for it.

`NJ` is the usual calculus, with sets of assumptions: it knows neither
positions nor an order of goals, and eliminates what has been derived rather
than what is assumed.  Each of its rules is simulated by a few requests
(`Scriptable` lemmas).  The simulation is stated for every list of
hypotheses that includes the assumptions, because a script extends the list
at its end where `NJ` inserts into a set.

The rule without a request of its own is the elimination of an equivalence:
it is cut in by modus ponens, introduced as the last hypothesis, and taken
apart there (`scriptable_of_equiv`).
-/

namespace Sequitur

/-! ## The calculus -/

/-- Natural deduction for intuitionistic propositional logic: `NJ Γ p` if `p`
can be derived from the assumptions `Γ`. -/
inductive NJ : Set Formula → Formula → Prop where
  | assumption {Γ : Set Formula} {p : Formula} (h : p ∈ Γ) : NJ Γ p
  | conjIntro {Γ : Set Formula} {l r : Formula} (hl : NJ Γ l) (hr : NJ Γ r) : NJ Γ (.conj l r)
  | conjLeft {Γ : Set Formula} {l r : Formula} (h : NJ Γ (.conj l r)) : NJ Γ l
  | conjRight {Γ : Set Formula} {l r : Formula} (h : NJ Γ (.conj l r)) : NJ Γ r
  | disjLeft {Γ : Set Formula} {l r : Formula} (h : NJ Γ l) : NJ Γ (.disj l r)
  | disjRight {Γ : Set Formula} {l r : Formula} (h : NJ Γ r) : NJ Γ (.disj l r)
  | disjElim {Γ : Set Formula} {l r p : Formula} (h : NJ Γ (.disj l r))
      (hl : NJ (insert l Γ) p) (hr : NJ (insert r Γ) p) : NJ Γ p
  | implIntro {Γ : Set Formula} {l r : Formula} (h : NJ (insert l Γ) r) : NJ Γ (.impl l r)
  | implElim {Γ : Set Formula} {l r : Formula} (h : NJ Γ (.impl l r)) (hl : NJ Γ l) : NJ Γ r
  | equivIntro {Γ : Set Formula} {l r : Formula} (hlr : NJ Γ (.impl l r))
      (hrl : NJ Γ (.impl r l)) : NJ Γ (.equiv l r)
  | equivForth {Γ : Set Formula} {l r : Formula} (h : NJ Γ (.equiv l r)) : NJ Γ (.impl l r)
  | equivBack {Γ : Set Formula} {l r : Formula} (h : NJ Γ (.equiv l r)) : NJ Γ (.impl r l)
  | exfalso {Γ : Set Formula} {p : Formula} (h : NJ Γ .falsity) : NJ Γ p

/-- A sequent is derivable if its conclusion is, from its hypotheses. -/
def Sequent.Derivable (s : Sequent) : Prop := NJ { p | p ∈ s.hyps } s.concl

/-! ## Simulation, rule by rule -/

namespace Derivation

variable {hyps : List Formula} {l r p : Formula}

theorem scriptable_of_mem (h : p ∈ hyps) : Scriptable ⟨hyps, p⟩ := by
  have hstep : Sequent.step ⟨hyps, p⟩ .hypothesis = .ok ⟨.hypothesis, []⟩ := by
    rw [Sequent.step, Sequent.byHypothesis, if_pos h]
  exact scriptable_of_step hstep (by simp)

theorem scriptable_conj (hl : Scriptable ⟨hyps, l⟩) (hr : Scriptable ⟨hyps, r⟩) :
    Scriptable ⟨hyps, .conj l r⟩ := by
  have hstep : Sequent.step ⟨hyps, .conj l r⟩ .conjIntro =
      .ok ⟨.conjunctionIntro, [⟨hyps, l⟩, ⟨hyps, r⟩]⟩ := rfl
  exact scriptable_of_step hstep (by simp [hl, hr])

theorem scriptable_of_conj (h : Scriptable ⟨hyps, .conj l r⟩)
    (hp : Scriptable ⟨hyps ++ [l, r], p⟩) : Scriptable ⟨hyps, p⟩ := by
  have hstep : Sequent.step ⟨hyps, p⟩ (.conjElim l r) =
      .ok ⟨.conjunctionElim, [⟨hyps, .conj l r⟩, ⟨hyps ++ [l, r], p⟩]⟩ := rfl
  exact scriptable_of_step hstep (by simp [h, hp])

theorem scriptable_disjLeft (h : Scriptable ⟨hyps, l⟩) : Scriptable ⟨hyps, .disj l r⟩ := by
  have hstep : Sequent.step ⟨hyps, .disj l r⟩ .disjIntroLeft =
      .ok ⟨.disjunctionIntroLeft, [⟨hyps, l⟩]⟩ := rfl
  exact scriptable_of_step hstep (by simp [h])

theorem scriptable_disjRight (h : Scriptable ⟨hyps, r⟩) : Scriptable ⟨hyps, .disj l r⟩ := by
  have hstep : Sequent.step ⟨hyps, .disj l r⟩ .disjIntroRight =
      .ok ⟨.disjunctionIntroRight, [⟨hyps, r⟩]⟩ := rfl
  exact scriptable_of_step hstep (by simp [h])

theorem scriptable_of_disj (h : Scriptable ⟨hyps, .disj l r⟩)
    (hl : Scriptable ⟨hyps ++ [l], p⟩) (hr : Scriptable ⟨hyps ++ [r], p⟩) :
    Scriptable ⟨hyps, p⟩ := by
  have hstep : Sequent.step ⟨hyps, p⟩ (.disjElim l r) =
      .ok ⟨.disjunctionElim, [⟨hyps, .disj l r⟩, ⟨hyps ++ [l], p⟩, ⟨hyps ++ [r], p⟩]⟩ := rfl
  exact scriptable_of_step hstep (by simp [h, hl, hr])

theorem scriptable_impl (h : Scriptable ⟨hyps ++ [l], r⟩) : Scriptable ⟨hyps, .impl l r⟩ := by
  have hstep : Sequent.step ⟨hyps, .impl l r⟩ .implIntro =
      .ok ⟨.implicationIntro, [⟨hyps ++ [l], r⟩]⟩ := rfl
  exact scriptable_of_step hstep (by simp [h])

theorem scriptable_of_impl (h : Scriptable ⟨hyps, .impl l p⟩) (hl : Scriptable ⟨hyps, l⟩) :
    Scriptable ⟨hyps, p⟩ := by
  have hstep : Sequent.step ⟨hyps, p⟩ (.modusPonens l) =
      .ok ⟨.modusPonens, [⟨hyps, .impl l p⟩, ⟨hyps, l⟩]⟩ := rfl
  exact scriptable_of_step hstep (by simp [h, hl])

theorem scriptable_equiv (hlr : Scriptable ⟨hyps, .impl l r⟩)
    (hrl : Scriptable ⟨hyps, .impl r l⟩) : Scriptable ⟨hyps, .equiv l r⟩ := by
  have hstep : Sequent.step ⟨hyps, .equiv l r⟩ .intro =
      .ok ⟨.equivalenceIntro, [⟨hyps, .impl l r⟩, ⟨hyps, .impl r l⟩]⟩ := rfl
  exact scriptable_of_step hstep (by simp [hlr, hrl])

theorem scriptable_of_falsity (h : Scriptable ⟨hyps, .falsity⟩) : Scriptable ⟨hyps, p⟩ := by
  have hstep : Sequent.step ⟨hyps, p⟩ .exfalso = .ok ⟨.exfalso, [⟨hyps, .falsity⟩]⟩ := rfl
  exact scriptable_of_step hstep (by simp [h])

/-- An equivalence as the last hypothesis gives way to its implications. -/
theorem step_elim_equiv :
    Sequent.step ⟨hyps ++ [.equiv l r], p⟩ (.elim hyps.length) =
      .ok ⟨.equivalenceWeakElim, [⟨hyps ++ [.impl l r, .impl r l], p⟩]⟩ := by
  have hlast : Sequent.hyp? ⟨hyps ++ [.equiv l r], p⟩ hyps.length = some (.equiv l r) := by
    simp [Sequent.hyp?, nth?_natCast]
  have hreplaced : Sequent.replaced ⟨hyps ++ [.equiv l r], p⟩ hyps.length
      [.impl l r, .impl r l] = hyps ++ [.impl l r, .impl r l] := by
    simp [Sequent.replaced]
  rw [Sequent.step, Sequent.elim, hlast]
  simp only [hreplaced]

/-- What follows from one of the implications of an equivalence that has a
script. -/
theorem scriptable_of_equiv (h : Scriptable ⟨hyps, .equiv l r⟩)
    (hp : p = .impl l r ∨ p = .impl r l) : Scriptable ⟨hyps, p⟩ := by
  have hopened : Scriptable ⟨hyps ++ [.impl l r, .impl r l], p⟩ :=
    scriptable_of_mem (List.mem_append_right _ (by simpa using hp))
  have hassumed : Scriptable ⟨hyps ++ [.equiv l r], p⟩ :=
    scriptable_of_step step_elim_equiv (by simp [hopened])
  exact scriptable_of_impl (scriptable_impl hassumed) h

/-! ## The whole calculus -/

/-- Extending a list of hypotheses at its end includes one more assumption. -/
theorem subset_append_of_insert {Γ : Set Formula} (h : Γ ⊆ { q | q ∈ hyps }) :
    insert l Γ ⊆ { q | q ∈ hyps ++ [l] } := by
  rintro q (rfl | hq)
  · simp
  · exact List.mem_append_left _ (h hq)

/-- What `NJ` derives, a script proves, under any list of hypotheses that
includes the assumptions. -/
theorem scriptable_of_nj {Γ : Set Formula} (h : NJ Γ p) (hsub : Γ ⊆ { q | q ∈ hyps }) :
    Scriptable ⟨hyps, p⟩ := by
  induction h generalizing hyps with
  | assumption hmem => exact scriptable_of_mem (hsub hmem)
  | conjIntro _ _ ihl ihr => exact scriptable_conj (ihl hsub) (ihr hsub)
  | conjLeft _ ih => exact scriptable_of_conj (ih hsub) (scriptable_of_mem (by simp))
  | conjRight _ ih => exact scriptable_of_conj (ih hsub) (scriptable_of_mem (by simp))
  | disjLeft _ ih => exact scriptable_disjLeft (ih hsub)
  | disjRight _ ih => exact scriptable_disjRight (ih hsub)
  | disjElim _ _ _ ih ihl ihr =>
      exact scriptable_of_disj (ih hsub) (ihl (subset_append_of_insert hsub))
        (ihr (subset_append_of_insert hsub))
  | implIntro _ ih => exact scriptable_impl (ih (subset_append_of_insert hsub))
  | implElim _ _ ih ihl => exact scriptable_of_impl (ih hsub) (ihl hsub)
  | equivIntro _ _ ihlr ihrl => exact scriptable_equiv (ihlr hsub) (ihrl hsub)
  | equivForth _ ih => exact scriptable_of_equiv (ih hsub) (.inl rfl)
  | equivBack _ ih => exact scriptable_of_equiv (ih hsub) (.inr rfl)
  | exfalso _ ih => exact scriptable_of_falsity (ih hsub)

/-- **Completeness.**  A derivable sequent is proved by a list of requests,
each applied to the first goal that is left and none of them refused. -/
theorem exists_script_of_derivable {s : Sequent} (h : s.Derivable) :
    ∃ (rs : List Request) (d : Derivation),
      rs.foldlM proveNext (goal s) = .ok d ∧ d.isComplete = true := by
  obtain ⟨rs, d, hscript, hroot⟩ := scriptable_of_nj h (subset_refl _)
  have hs : d.sequent = s := hroot
  rw [← hs]
  exact ⟨rs, d, hscript.builds, hscript.complete⟩

/-- A script for a sequent whose equivalence is not a hypothesis but part of
one. -/
theorem exists_script_of_derivable_equiv_part :
    let A : Formula := .var ⟨⟨'A', rfl⟩, []⟩
    let B : Formula := .var ⟨⟨'B', rfl⟩, []⟩
    let s : Sequent := ⟨[.conj (.equiv A B) A], B⟩
    s.Derivable ∧ ∃ (rs : List Request) (d : Derivation),
      rs.foldlM proveNext (goal s) = .ok d ∧ d.isComplete = true := by
  intro A B s
  have hboth : NJ { p | p ∈ s.hyps } (.conj (.equiv A B) A) := .assumption List.mem_cons_self
  have h : s.Derivable := .implElim (.equivForth (.conjLeft hboth)) (.conjRight hboth)
  exact ⟨h, exists_script_of_derivable h⟩

end Derivation

end Sequitur
