import Sequitur.Proofs.Rule.Applicability

/-!
# Sequitur.Proofs.Rule.Iteration

A request that does at once what another does one step at a time.

Introducing all implications of a chain is introducing one implication after
another, until that is refused.  `IntroducesAll` is this repetition, told by the
answers to the single request and not by the conclusion; what the conclusion of a
chain is made of is told by `strip`.

* `introducesAll_strip`: the repetition ends, after as many steps as the chain has
  antecedents, by induction over the conclusion;
* `IntroducesAll.unique`: it can only end in one way, by induction over the steps.
-/

namespace Sequitur

namespace Sequent

/-! ## One implication -/

section

variable {s : Sequent}

theorem applyCall_implIntro {l r : Formula} (h : s.concl = .impl l r) :
    s.applyCall Request.implIntro.call = .ok ⟨.implicationIntro, [⟨s.hyps ++ [l], r⟩]⟩ := by
  rw [applyCall_call_eq_ok_iff, step, implIntro, h]
  rfl

theorem applyCall_implIntro_refused (h : ∀ l r, s.concl ≠ .impl l r) :
    s.applyCall Request.implIntro.call =
      .error (.notApplicable ⟨.implIntro, .notImplication⟩) := by
  rw [applyCall_eq_notApplicable_iff, step, implIntro]
  refine ⟨rfl, ?_⟩
  split
  · next l r hconcl => exact absurd hconcl (h l r)
  · rfl

end

/-! ## All of them -/

/-- `IntroducesAll s ps t`: introducing implications one at a time, first in `s`
and then in the premise that each step leaves, until there is none to introduce,
leads to `t`.  The antecedents come in the order `ps`. -/
inductive IntroducesAll : Sequent → List Formula → Sequent → Prop where
  | refused {s : Sequent} {e : CallError} (h : s.applyCall Request.implIntro.call = .error e) :
      IntroducesAll s [] s
  | step {s t u : Sequent} {l r : Formula} {ps : List Formula} {k : Rule}
      (hconcl : s.concl = .impl l r)
      (h : s.applyCall Request.implIntro.call = .ok ⟨k, [t]⟩) (hrest : IntroducesAll t ps u) :
      IntroducesAll s (l :: ps) u

theorem IntroducesAll.unique {s t u : Sequent} {ps qs : List Formula} (ht : IntroducesAll s ps t)
    (hu : IntroducesAll s qs u) : ps = qs ∧ t = u := by
  induction ht generalizing qs u with
  | refused h =>
      cases hu with
      | refused _ => exact ⟨rfl, rfl⟩
      | step _ h' _ => rw [h] at h'; contradiction
  | step hconcl h _ ih =>
      cases hu with
      | refused h' => rw [h] at h'; contradiction
      | step hconcl' h' hrest =>
          rw [hconcl] at hconcl'
          rw [h] at h'
          cases hconcl'
          cases h'
          obtain ⟨rfl, rfl⟩ := ih hrest
          exact ⟨rfl, rfl⟩

/-- **Introducing implications comes to an end**, with all antecedents among the
hypotheses. -/
theorem introducesAll_strip (hyps : List Formula) (p : Formula) :
    IntroducesAll ⟨hyps, p⟩ (strip p).1 ⟨hyps ++ (strip p).1, (strip p).2⟩ := by
  fun_induction strip p generalizing hyps with
  | case1 l r antecedents concl hstrip ih =>
      have hrest := ih (hyps ++ [l])
      rw [hstrip, List.append_assoc] at hrest
      exact .step rfl (applyCall_implIntro rfl) hrest
  | case2 p hp =>
      rw [List.append_nil]
      exact .refused (applyCall_implIntro_refused hp)

theorem applyCall_implIntros (s : Sequent) :
    s.applyCall Request.implIntros.call =
      .ok ⟨.implicationIntros, [⟨s.hyps ++ (strip s.concl).1, (strip s.concl).2⟩]⟩ := by
  rw [applyCall_call_eq_ok_iff]
  rfl

/-- A negation is an implication, and is introduced as one. -/
example (p q : Formula) : Sequent.applyCall ⟨[], .impl p q.neg⟩ Request.implIntros.call =
    .ok ⟨.implicationIntros, [⟨[p, q], .falsity⟩]⟩ := rfl

/-- **Introducing all implications is introducing one after another.**  The request
always fits and leaves one premise: the sequent in which the single introductions
end, and no other.  There the single introduction is refused, and introducing all
changes nothing.  The premise has the hypotheses of the sequent and behind them the
antecedents, which lead from the old conclusion to the new one. -/
theorem implIntros_iterates (s : Sequent) :
    ∃ antecedents t,
      s.applyCall Request.implIntros.call = .ok ⟨.implicationIntros, [t]⟩ ∧
      (∀ ps u, IntroducesAll s ps u ↔ ps = antecedents ∧ u = t) ∧
      t.applyCall Request.implIntro.call =
        .error (.notApplicable ⟨.implIntro, .notImplication⟩) ∧
      t.applyCall Request.implIntros.call = .ok ⟨.implicationIntros, [t]⟩ ∧
      t.hyps = s.hyps ++ antecedents ∧ s.concl = antecedents.foldr .impl t.concl := by
  have hall := introducesAll_strip s.hyps s.concl
  refine ⟨(strip s.concl).1, ⟨s.hyps ++ (strip s.concl).1, (strip s.concl).2⟩,
    applyCall_implIntros s, ?_, applyCall_implIntro_refused (strip_ne_impl s.concl), ?_, rfl,
    (foldr_impl_strip s.concl).symm⟩
  · intro ps u
    constructor
    · intro h
      exact h.unique hall
    · rintro ⟨rfl, rfl⟩
      exact hall
  · rw [applyCall_implIntros, strip_of_ne_impl (strip_ne_impl s.concl), List.append_nil]

end Sequent

end Sequitur
