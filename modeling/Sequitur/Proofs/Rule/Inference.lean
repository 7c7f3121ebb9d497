import Sequitur.Rule.Apply

/-!
# Sequitur.Proofs.Rule.Inference

The rules of inference as a relation.  `Inference s k premises` says that
rule `k` leads from `premises` to `s`; it has one constructor for each rule
and speaks of hypotheses as lists, not of positions in them.

`inference_of_step` is the only place where the requests are opened: each
request that fits is an inference.  What is to hold of all requests, such as
soundness, is then proved of the sixteen inferences.
-/

namespace Sequitur

namespace Sequent

/-- `Inference s k premises`: rule `k` leads from `premises` to `s`. -/
inductive Inference (s : Sequent) : Rule → List Sequent → Prop where
  | hypothesis (h : s.concl ∈ s.hyps) : Inference s .hypothesis []
  | implicationIntro {l r : Formula} (h : s.concl = .impl l r) :
      Inference s .implicationIntro [⟨s.hyps ++ [l], r⟩]
  | implicationIntros :
      Inference s .implicationIntros [⟨s.hyps ++ (strip s.concl).1, (strip s.concl).2⟩]
  | modusPonens (b : Formula) :
      Inference s .modusPonens [⟨s.hyps, .impl b s.concl⟩, ⟨s.hyps, b⟩]
  | weakModusPonens {l : Formula} (h : .impl l s.concl ∈ s.hyps) :
      Inference s .weakModusPonens [⟨s.hyps, l⟩]
  | disjunctionIntroLeft {l r : Formula} (h : s.concl = .disj l r) :
      Inference s .disjunctionIntroLeft [⟨s.hyps, l⟩]
  | disjunctionIntroRight {l r : Formula} (h : s.concl = .disj l r) :
      Inference s .disjunctionIntroRight [⟨s.hyps, r⟩]
  | disjunctionElim (a b : Formula) :
      Inference s .disjunctionElim
        [⟨s.hyps, .disj a b⟩, ⟨s.hyps ++ [a], s.concl⟩, ⟨s.hyps ++ [b], s.concl⟩]
  | disjunctionWeakElim {l r : Formula} {before after : List Formula}
      (h : s.hyps = before ++ .disj l r :: after) :
      Inference s .disjunctionWeakElim
        [⟨before ++ l :: after, s.concl⟩, ⟨before ++ r :: after, s.concl⟩]
  | conjunctionIntro {l r : Formula} (h : s.concl = .conj l r) :
      Inference s .conjunctionIntro [⟨s.hyps, l⟩, ⟨s.hyps, r⟩]
  | conjunctionElim (a b : Formula) :
      Inference s .conjunctionElim [⟨s.hyps, .conj a b⟩, ⟨s.hyps ++ [a, b], s.concl⟩]
  | conjunctionWeakElim {l r : Formula} {before after : List Formula}
      (h : s.hyps = before ++ .conj l r :: after) :
      Inference s .conjunctionWeakElim [⟨before ++ l :: r :: after, s.concl⟩]
  | equivalenceIntro {l r : Formula} (h : s.concl = .equiv l r) :
      Inference s .equivalenceIntro [⟨s.hyps, .impl l r⟩, ⟨s.hyps, .impl r l⟩]
  | equivalenceWeakElim {l r : Formula} {before after : List Formula}
      (h : s.hyps = before ++ .equiv l r :: after) :
      Inference s .equivalenceWeakElim
        [⟨before ++ .impl l r :: .impl r l :: after, s.concl⟩]
  | exfalso : Inference s .exfalso [⟨s.hyps, .falsity⟩]
  | weaken {hyps : List Formula} (h : hyps.Sublist s.hyps) :
      Inference s .weaken [⟨hyps, s.concl⟩]

/-! ## Chains of implications -/

/-- A chain of implications is put together again from its parts. -/
theorem foldr_impl_strip (p : Formula) : (strip p).1.foldr .impl (strip p).2 = p := by
  fun_induction strip p with
  | case1 l r antecedents concl hstrip ih =>
      rw [hstrip] at ih
      rw [List.foldr_cons, ih]
  | case2 p _ => rfl

/-- What a chain leads to is no implication. -/
theorem strip_ne_impl (p l r : Formula) : (strip p).2 ≠ .impl l r := by
  fun_induction strip p with
  | case1 l' r' antecedents concl hstrip ih => rwa [hstrip] at ih
  | case2 p hp => exact hp l r

theorem strip_of_ne_impl {p : Formula} (h : ∀ l r, p ≠ .impl l r) : strip p = ([], p) := by
  fun_cases strip p with
  | case1 l r => exact absurd rfl (h l r)
  | case2 _ => rfl

/-! ## Hypotheses by position -/

/-- A position that names a hypothesis cuts the list there, and replacing
the hypothesis puts others between the two parts. -/
theorem hyp?_eq_some {s : Sequent} {i : Int} {h : Formula} (hi : s.hyp? i = some h) :
    ∃ before after, s.hyps = before ++ h :: after ∧
      ∀ ps, s.replaced i ps = before ++ ps ++ after := by
  cases i with
  | negSucc n => cases hi
  | ofNat n =>
      obtain ⟨hlt, rfl⟩ := List.getElem?_eq_some_iff.mp hi
      refine ⟨s.hyps.take n, s.hyps.drop (n + 1), ?_, ?_⟩
      · rw [List.getElem_cons_drop, List.take_append_drop]
      · intro ps
        rfl

/-- Removing hypotheses keeps the others in order. -/
theorem without_sublist (is : List Int) (i : Nat) (hyps : List Formula) :
    (without is i hyps).Sublist hyps := by
  induction hyps generalizing i with
  | nil => exact .slnil
  | cons h hs ih =>
      rw [without]
      split
      · exact (ih (i + 1)).cons h
      · exact (ih (i + 1)).cons_cons h

/-! ## Requests that fit -/

section

variable {s : Sequent} {step : Step}

theorem inference_of_byHypothesis (h : s.byHypothesis = .ok step) :
    s.Inference step.rule step.premises := by
  rw [byHypothesis] at h
  split at h
  · next hmem =>
      cases h
      exact .hypothesis hmem
  · contradiction

theorem inference_of_implIntro (h : s.implIntro = .ok step) :
    s.Inference step.rule step.premises := by
  rw [implIntro] at h
  split at h
  · next l r hconcl =>
      cases h
      exact .implicationIntro hconcl
  · contradiction

theorem inference_of_conjIntro (h : s.conjIntro = .ok step) :
    s.Inference step.rule step.premises := by
  rw [conjIntro] at h
  split at h
  · next l r hconcl =>
      cases h
      exact .conjunctionIntro hconcl
  · contradiction

theorem inference_of_disjIntroLeft (h : s.disjIntroLeft = .ok step) :
    s.Inference step.rule step.premises := by
  rw [disjIntroLeft] at h
  split at h
  · next l r hconcl =>
      cases h
      exact .disjunctionIntroLeft hconcl
  · contradiction

theorem inference_of_disjIntroRight (h : s.disjIntroRight = .ok step) :
    s.Inference step.rule step.premises := by
  rw [disjIntroRight] at h
  split at h
  · next l r hconcl =>
      cases h
      exact .disjunctionIntroRight hconcl
  · contradiction

theorem inference_of_intro (h : s.intro = .ok step) : s.Inference step.rule step.premises := by
  rw [intro] at h
  split at h
  · next l r hconcl =>
      cases h
      exact .equivalenceIntro hconcl
  · exact inference_of_conjIntro h
  · exact inference_of_implIntro h
  · contradiction

theorem inference_of_elim {i : Int} (h : s.elim i = .ok step) :
    s.Inference step.rule step.premises := by
  rw [elim] at h
  split at h
  · contradiction
  · next l r hi =>
      obtain ⟨before, after, hhyps, hreplaced⟩ := hyp?_eq_some hi
      cases h
      simpa [hreplaced] using Inference.equivalenceWeakElim hhyps
  · next l r hi =>
      obtain ⟨before, after, hhyps, hreplaced⟩ := hyp?_eq_some hi
      cases h
      simpa [hreplaced] using Inference.conjunctionWeakElim hhyps
  · next l r hi =>
      obtain ⟨before, after, hhyps, hreplaced⟩ := hyp?_eq_some hi
      cases h
      simpa [hreplaced] using Inference.disjunctionWeakElim hhyps
  · next l r hi =>
      obtain ⟨before, after, hhyps, -⟩ := hyp?_eq_some hi
      split at h
      · next hr =>
          subst hr
          cases h
          apply Inference.weakModusPonens
          rw [hhyps]
          exact List.mem_append_right _ List.mem_cons_self
      · contradiction
  · contradiction

theorem inference_of_weaken {is : List Int} (h : s.weaken is = .ok step) :
    s.Inference step.rule step.premises := by
  rw [weaken] at h
  split at h
  · contradiction
  · split at h
    · cases h
      exact .weaken (without_sublist is 0 s.hyps)
    · contradiction

/-- **Every request that fits is an inference.** -/
theorem inference_of_step {r : Request} (h : s.step r = .ok step) :
    s.Inference step.rule step.premises := by
  cases r with
  | hypothesis => exact inference_of_byHypothesis h
  | intro => exact inference_of_intro h
  | implIntro => exact inference_of_implIntro h
  | implIntros => cases h; exact .implicationIntros
  | elim i => exact inference_of_elim h
  | modusPonens b => cases h; exact .modusPonens b
  | disjIntroLeft => exact inference_of_disjIntroLeft h
  | disjIntroRight => exact inference_of_disjIntroRight h
  | disjElim a b => cases h; exact .disjunctionElim a b
  | conjIntro => exact inference_of_conjIntro h
  | conjElim a b => cases h; exact .conjunctionElim a b
  | exfalso => cases h; exact .exfalso
  | weaken is => exact inference_of_weaken h

end

end Sequent

end Sequitur
