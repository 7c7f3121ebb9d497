import Sequitur.Proofs.Logic.Provability
import Sequitur.Proofs.Logic.Soundness
import Sequitur.Proofs.Logic.Valuation

/-!
# Sequitur.Proofs.Logic.Inversion

Rules that can be read backwards.  Soundness leads from the premises of a
rule to its conclusion; for the invertible rules (`Rule.invertible`) the way
back is open too, both for what holds in a Kripke model
(`Inference.holds_iff`) and for what can be proved (`provable_iff_premises`).

A derivation made of such rules is as good as the sequent at its root: what
all its goals have, the root has, and the other way round (`iff_goals`).
The induction over the tree is made once, for any property of sequents that
each single rule carries in both directions.  A valuation needs no induction
of its own, being a Kripke model with one world (`refutedBy_run_iff`).
-/

universe u

namespace Sequitur

open KripkeModel

/-! ## The rules -/

/-- The rules that can be read backwards. -/
def Rule.invertible : List Rule :=
  [hypothesis, implicationIntro, implicationIntros, conjunctionIntro, equivalenceIntro,
    conjunctionWeakElim, disjunctionWeakElim, equivalenceWeakElim]

/-- The requests that choose one of these rules for a sequent: to close it, to
introduce anything but a disjunction, and to eliminate a hypothesis that has a
connective and is no implication. -/
def Request.IsInvertible (s : Sequent) : Request → Prop
  | .hypothesis | .intro | .implIntro | .implIntros | .conjIntro => True
  | .elim i => ∃ c l r, s.hyp? i = some (.bin c l r) ∧ c ≠ .impl
  | _ => False

namespace Sequent

variable {s : Sequent} {step : Step}

theorem rule_of_implIntro (h : s.implIntro = .ok step) : step.rule = .implicationIntro := by
  rw [implIntro] at h
  split at h
  · cases h
    rfl
  · contradiction

theorem rule_of_conjIntro (h : s.conjIntro = .ok step) : step.rule = .conjunctionIntro := by
  rw [conjIntro] at h
  split at h
  · cases h
    rfl
  · contradiction

theorem rule_of_intro (h : s.intro = .ok step) : step.rule ∈ Rule.invertible := by
  rw [intro] at h
  split at h
  · cases h
    simp [Rule.invertible]
  · simp [rule_of_conjIntro h, Rule.invertible]
  · simp [rule_of_implIntro h, Rule.invertible]
  · contradiction

theorem rule_of_elim {i : Int} {c : Connective} {l r : Formula}
    (hi : s.hyp? i = some (.bin c l r)) (hc : c ≠ .impl) (h : s.elim i = .ok step) :
    step.rule ∈ Rule.invertible := by
  rw [elim, hi] at h
  cases c with
  | impl => contradiction
  | conj | disj | equiv =>
      cases h
      simp [Rule.invertible]

/-- An invertible request that fits leads to an invertible rule. -/
theorem rule_mem_invertible {r : Request} (hr : r.IsInvertible s) (h : s.step r = .ok step) :
    step.rule ∈ Rule.invertible := by
  cases r with
  | hypothesis =>
      rw [Sequent.step, byHypothesis] at h
      split at h
      · cases h
        decide
      · contradiction
  | intro => exact rule_of_intro h
  | implIntro => simp [rule_of_implIntro h, Rule.invertible]
  | implIntros =>
      cases h
      simp [implIntros, Rule.invertible]
  | conjIntro => simp [rule_of_conjIntro h, Rule.invertible]
  | elim i =>
      obtain ⟨c, l, r, hi, hc⟩ := hr
      exact rule_of_elim hi hc h
  | modusPonens _ | disjIntroLeft | disjIntroRight | disjElim _ _ | conjElim _ _ | exfalso
  | weaken _ => exact hr.elim

end Sequent

/-! ## Kripke models -/

section

variable {M : KripkeModel.{u}} {hyps hyps' : List Formula} {concl : Formula}

/-- Hypotheses can be exchanged for others that force them. -/
theorem KripkeModel.Holds.of_hyps (h : M.Holds ⟨hyps, concl⟩)
    (hhyps : ∀ w, M.ForcesAll w hyps' → M.ForcesAll w hyps) : M.Holds ⟨hyps', concl⟩ :=
  fun w hw => h w (hhyps w hw)

/-- Where a chain of implications is forced with all its antecedents, so is
its end. -/
theorem forces_strip {w : M.World} {p : Formula} (h : M.Forces w p)
    (hants : M.ForcesAll w (Sequent.strip p).1) : M.Forces w (Sequent.strip p).2 := by
  fun_induction Sequent.strip p with
  | case1 l r antecedents concl hr ih =>
      rw [hr] at ih
      rw [forcesAll_cons] at hants
      have hforced : M.Forces w r := h w (le_refl w) hants.1
      exact ih hforced hants.2
  | case2 p _ => exact h

/-- **Inversion in a Kripke model.**  Where the conclusion of an invertible
rule holds, so do its premises. -/
theorem Sequent.Inference.holds_premises {s : Sequent} {k : Rule} {premises : List Sequent}
    (hinf : s.Inference k premises) (hk : k ∈ Rule.invertible) (h : M.Holds s) :
    ∀ p ∈ premises, M.Holds p := by
  obtain ⟨hyps, concl⟩ := s
  cases hinf with
  | hypothesis _ => exact List.forall_mem_nil _
  | implicationIntro hconcl =>
      obtain rfl := hconcl
      rw [List.forall_mem_singleton]
      intro w hw
      simp only [forcesAll_append, forcesAll_cons, forcesAll_nil, and_true] at hw
      exact h w hw.1 w (le_refl w) hw.2
  | implicationIntros =>
      rw [List.forall_mem_singleton]
      intro w hw
      rw [forcesAll_append] at hw
      exact forces_strip (h w hw.1) hw.2
  | conjunctionIntro hconcl =>
      obtain rfl := hconcl
      rw [List.forall_mem_cons, List.forall_mem_singleton]
      exact ⟨fun w hw => (h w hw).1, fun w hw => (h w hw).2⟩
  | equivalenceIntro hconcl =>
      obtain rfl := hconcl
      rw [List.forall_mem_cons, List.forall_mem_singleton]
      exact ⟨fun w hw => (h w hw).1, fun w hw => (h w hw).2⟩
  | conjunctionWeakElim hsplit =>
      obtain rfl := hsplit
      rw [List.forall_mem_singleton]
      apply h.of_hyps
      intro w hw
      simp only [forcesAll_append, forcesAll_cons] at hw ⊢
      obtain ⟨hbefore, hl, hr, hafter⟩ := hw
      exact ⟨hbefore, ⟨hl, hr⟩, hafter⟩
  | disjunctionWeakElim hsplit =>
      obtain rfl := hsplit
      rw [List.forall_mem_cons, List.forall_mem_singleton]
      constructor
      · apply h.of_hyps
        intro w hw
        simp only [forcesAll_append, forcesAll_cons] at hw ⊢
        exact ⟨hw.1, .inl hw.2.1, hw.2.2⟩
      · apply h.of_hyps
        intro w hw
        simp only [forcesAll_append, forcesAll_cons] at hw ⊢
        exact ⟨hw.1, .inr hw.2.1, hw.2.2⟩
  | equivalenceWeakElim hsplit =>
      obtain rfl := hsplit
      rw [List.forall_mem_singleton]
      apply h.of_hyps
      intro w hw
      simp only [forcesAll_append, forcesAll_cons] at hw ⊢
      obtain ⟨hbefore, hlr, hrl, hafter⟩ := hw
      exact ⟨hbefore, ⟨hlr, hrl⟩, hafter⟩
  | modusPonens _ | weakModusPonens _ | disjunctionIntroLeft _ | disjunctionIntroRight _
  | disjunctionElim _ _ | conjunctionElim _ _ | exfalso | weaken _ => exact absurd hk (by decide)

theorem Sequent.Inference.holds_iff {s : Sequent} {k : Rule} {premises : List Sequent}
    (hinf : s.Inference k premises) (hk : k ∈ Rule.invertible) :
    M.Holds s ↔ ∀ p ∈ premises, M.Holds p :=
  ⟨hinf.holds_premises hk, hinf.holds⟩

end

/-! ## Valuations -/

/-- A sequent holds in the model of a valuation unless the valuation refutes it. -/
theorem KripkeModel.holds_ofValuation_iff {v : Valuation} {s : Sequent} :
    (ofValuation v).Holds s ↔ ¬ s.RefutedBy v := by
  constructor
  · intro hholds hrefuted
    exact not_holds_ofValuation hrefuted hholds
  · intro hnot w hw
    rw [forces_ofValuation]
    by_contra hconcl
    have hhyps : ∀ p ∈ s.hyps, p.eval v = true := fun p hp => forces_ofValuation.mp (hw p hp)
    exact hnot ⟨hhyps, Bool.eq_false_iff.mpr hconcl⟩

/-! ## What can be proved -/

namespace Derivation

variable {hyps : List Formula}

/-- The antecedents of a chain may be added to the hypotheses. -/
theorem Scriptable.strip {p : Formula} (h : Scriptable ⟨hyps, p⟩) :
    Scriptable ⟨hyps ++ (Sequent.strip p).1, (Sequent.strip p).2⟩ := by
  fun_induction Sequent.strip p generalizing hyps with
  | case1 l r antecedents concl hr ih =>
      rw [hr] at ih
      have hmore : Scriptable ⟨hyps ++ [l], .impl l r⟩ := h.of_subset (List.subset_append_left _ _)
      have hr : Scriptable ⟨hyps ++ [l], r⟩ :=
        scriptable_of_impl hmore (scriptable_of_mem (by simp))
      have hstripped := ih hr
      rwa [List.append_assoc] at hstripped
  | case2 p _ => rwa [List.append_nil]

/-- A hypothesis in the middle can be exchanged for others that prove it. -/
theorem Scriptable.exchange {before after ps : List Formula} {q concl : Formula}
    (h : Scriptable ⟨before ++ q :: after, concl⟩)
    (hq : Scriptable ⟨before ++ ps ++ after, q⟩) :
    Scriptable ⟨before ++ ps ++ after, concl⟩ := by
  apply h.cut
  intro p hp
  rw [List.mem_append, List.mem_cons] at hp
  rcases hp with hbefore | rfl | hafter
  · exact scriptable_of_mem (by simp [hbefore])
  · exact hq
  · exact scriptable_of_mem (by simp [hafter])

/-- **Inversion for scripts.**  Where a script proves the conclusion of an
invertible rule, scripts prove its premises. -/
theorem scriptable_premises {s : Sequent} {k : Rule} {premises : List Sequent}
    (hinf : s.Inference k premises) (hk : k ∈ Rule.invertible) (h : Scriptable s) :
    ∀ p ∈ premises, Scriptable p := by
  obtain ⟨hyps, concl⟩ := s
  cases hinf with
  | hypothesis _ => exact List.forall_mem_nil _
  | @implicationIntro l r hconcl =>
      obtain rfl := hconcl
      rw [List.forall_mem_singleton]
      have hmore : Scriptable ⟨hyps ++ [l], .impl l r⟩ := h.of_subset (List.subset_append_left _ _)
      exact scriptable_of_impl hmore (scriptable_of_mem (by simp))
  | implicationIntros =>
      rw [List.forall_mem_singleton]
      exact h.strip
  | conjunctionIntro hconcl =>
      obtain rfl := hconcl
      rw [List.forall_mem_cons, List.forall_mem_singleton]
      exact ⟨scriptable_of_conj h (scriptable_of_mem (by simp)),
        scriptable_of_conj h (scriptable_of_mem (by simp))⟩
  | equivalenceIntro hconcl =>
      obtain rfl := hconcl
      rw [List.forall_mem_cons, List.forall_mem_singleton]
      exact ⟨scriptable_of_equiv h (.inl rfl), scriptable_of_equiv h (.inr rfl)⟩
  | @conjunctionWeakElim l r before after hsplit =>
      obtain rfl := hsplit
      have hconj : Scriptable ⟨before ++ [l, r] ++ after, .conj l r⟩ :=
        scriptable_conj (scriptable_of_mem (by simp)) (scriptable_of_mem (by simp))
      simpa using h.exchange hconj
  | @disjunctionWeakElim l r before after hsplit =>
      obtain rfl := hsplit
      have hleft : Scriptable ⟨before ++ [l] ++ after, .disj l r⟩ :=
        scriptable_disjLeft (scriptable_of_mem (by simp))
      have hright : Scriptable ⟨before ++ [r] ++ after, .disj l r⟩ :=
        scriptable_disjRight (scriptable_of_mem (by simp))
      simpa using And.intro (h.exchange hleft) (h.exchange hright)
  | @equivalenceWeakElim l r before after hsplit =>
      obtain rfl := hsplit
      have hequiv : Scriptable ⟨before ++ [.impl l r, .impl r l] ++ after, .equiv l r⟩ :=
        scriptable_equiv (scriptable_of_mem (by simp)) (scriptable_of_mem (by simp))
      simpa using h.exchange hequiv
  | modusPonens _ | weakModusPonens _ | disjunctionIntroLeft _ | disjunctionIntroRight _
  | disjunctionElim _ _ | conjunctionElim _ _ | exfalso | weaken _ => exact absurd hk (by decide)

/-- The conclusion of an invertible rule is provable if and only if its
premises are. -/
theorem provable_iff_premises {s : Sequent} {r : Request} {step : Step}
    (hstep : s.step r = .ok step) (hk : step.rule ∈ Rule.invertible) :
    s.Provable ↔ ∀ p ∈ step.premises, p.Provable := by
  simp only [provable_iff_scriptable]
  exact ⟨scriptable_premises (Sequent.inference_of_step hstep) hk, scriptable_of_step hstep⟩

/-! ## Trees -/

/-- Every rule of the derivation is among the given ones. -/
inductive UsesOnly (ks : List Rule) : Derivation → Prop where
  | goal (s : Sequent) : UsesOnly ks (.goal s)
  | node (s : Sequent) (k : Rule) (ds : List Derivation) (hk : k ∈ ks)
      (hds : ∀ d ∈ ds, UsesOnly ks d) : UsesOnly ks (.node s k ds)

/-- A property of all goals of a derivation. -/
def AllGoals (P : Sequent → Prop) (d : Derivation) : Prop :=
  ∀ path g, d.at? path = some (.goal g) → P g

variable {P : Sequent → Prop}

theorem allGoals_goal {s : Sequent} : (goal s).AllGoals P ↔ P s := by
  constructor
  · intro h
    exact h [] s rfl
  · intro h path g hat
    cases path with
    | nil =>
        obtain rfl : s = g := by simpa using hat
        exact h
    | cons i path =>
        obtain ⟨_, _, _, _, _, heq, -⟩ := at?_cons_eq_some hat
        contradiction

/-- The goals of a node are those of its premises. -/
theorem allGoals_node {s : Sequent} {k : Rule} {ds : List Derivation} :
    (node s k ds).AllGoals P ↔ ∀ d ∈ ds, d.AllGoals P := by
  constructor
  · intro h d hd path g hat
    obtain ⟨i, hi⟩ := exists_at?_of_mem (s := s) (k := k) hd
    exact h (i :: path) g ((hi path).trans hat)
  · intro h path g hat
    cases path with
    | nil => simp at hat
    | cons i path =>
        obtain ⟨_, _, _, m, premise, heq, -, hm, hg⟩ := at?_cons_eq_some hat
        cases heq
        exact h premise (List.mem_of_getElem? hm) path g hg

/-- **From the root to the goals and back.**  If each rule of a well-formed
derivation carries a property in both directions, the root has it if and only
if all goals have it. -/
theorem WellFormed.iff_goals {ks : List Rule} {d : Derivation}
    (hP : ∀ s r step, Sequent.step s r = .ok step → step.rule ∈ ks →
      (P s ↔ ∀ p ∈ step.premises, P p))
    (hd : WellFormed d) (hks : UsesOnly ks d) : P d.sequent ↔ d.AllGoals P := by
  induction hd with
  | goal s => exact allGoals_goal.symm
  | node s r k ds hstep _ ih =>
      cases hks with
      | node _ _ _ hk hds =>
          rw [allGoals_node, sequent, hP s r _ hstep hk, List.forall_mem_map]
          exact forall₂_congr fun d hd => ih d hd (hds d hd)

/-! ## Runs -/

section

variable {s : Sequent} {as : List Action}

theorem holds_run_iff (hks : UsesOnly Rule.invertible ((goal s).run as)) (M : KripkeModel.{u}) :
    M.Holds s ↔ ((goal s).run as).AllGoals M.Holds := by
  have hwf : WellFormed ((goal s).run as) := wellFormed_run (.goal s) as
  have hroot := hwf.iff_goals (P := M.Holds)
    (fun _ _ _ hstep hk => (Sequent.inference_of_step hstep).holds_iff hk) hks
  rwa [sequent_run] at hroot

theorem provable_run_iff (hks : UsesOnly Rule.invertible ((goal s).run as)) :
    s.Provable ↔ ((goal s).run as).AllGoals Sequent.Provable := by
  have hwf : WellFormed ((goal s).run as) := wellFormed_run (.goal s) as
  have hroot := hwf.iff_goals (fun _ _ _ hstep hk => provable_iff_premises hstep hk) hks
  rwa [sequent_run] at hroot

/-- A valuation is a model with one world, in which not to hold is to be
refuted. -/
theorem refutedBy_run_iff (hks : UsesOnly Rule.invertible ((goal s).run as)) (v : Valuation) :
    s.RefutedBy v ↔ ∃ path g, ((goal s).run as).at? path = some (goal g) ∧ g.RefutedBy v := by
  rw [← not_iff_not, ← holds_ofValuation_iff, holds_run_iff hks]
  simp only [AllGoals, holds_ofValuation_iff, not_exists, not_and]

end

/-- **Invertible rules keep exactly the countermodels of the root.**  Take any
run from a goal that has left a tree of invertible rules.  A valuation refutes
the sequent at the root if and only if it refutes one of the goals that are
left; in a Kripke model the root holds if and only if all these goals do; and
the root can be proved if and only if they all can.  So a request that chooses
such a rule never turns a goal that can be proved into one that cannot. -/
theorem run_invertible :
    (∀ (s : Sequent) (as : List Action), UsesOnly Rule.invertible ((goal s).run as) →
      (∀ v : Valuation, s.RefutedBy v ↔
        ∃ path g, ((goal s).run as).at? path = some (goal g) ∧ g.RefutedBy v) ∧
      (∀ M : KripkeModel.{u}, M.Holds s ↔
        ∀ path g, ((goal s).run as).at? path = some (goal g) → M.Holds g) ∧
      (s.Provable ↔ ∀ path g, ((goal s).run as).at? path = some (goal g) → g.Provable)) ∧
    ∀ (g : Sequent) (r : Request) (step : Step), r.IsInvertible g → g.step r = .ok step →
      step.rule ∈ Rule.invertible ∧ (g.Provable ↔ ∀ p ∈ step.premises, p.Provable) := by
  constructor
  · intro s as hks
    exact ⟨refutedBy_run_iff hks, holds_run_iff hks, provable_run_iff hks⟩
  · intro g r step hr hstep
    have hk := Sequent.rule_mem_invertible hr hstep
    exact ⟨hk, provable_iff_premises hstep hk⟩

/-- After a disjunction and an equivalence have been eliminated and one part of
the conclusion proved, a valuation refutes one of the two goals that are left,
and with it the root.  A conjunction that is eliminated, on the other hand,
leaves what could be proved provable. -/
theorem run_invertible_two_goals :
    let A : Formula := .var ⟨⟨'A', rfl⟩, []⟩
    let B : Formula := .var ⟨⟨'B', rfl⟩, []⟩
    let C : Formula := .var ⟨⟨'C', rfl⟩, []⟩
    let s : Sequent := ⟨[.disj A B, .equiv B C], .conj A (.impl B C)⟩
    let as : List Action := [.proveNext (Request.elim 0).call, .applyAt [1] (Request.elim 1).call,
      .applyAt [1, 0] Request.conjIntro.call, .applyAt [1, 0, 1] Request.hypothesis.call]
    let g : Sequent := ⟨[B, .impl B C, .impl C B], A⟩
    let v : Valuation := fun x => x ≠ ⟨⟨'A', rfl⟩, []⟩
    let q : Sequent := ⟨[B, .conj A C], C⟩
    (UsesOnly Rule.invertible ((goal s).run as) ∧
      ((goal s).run as).at? [1, 0, 0] = some (goal g) ∧ g.RefutedBy v ∧ s.RefutedBy v) ∧
    ((Request.elim 1).IsInvertible q ∧
      q.step (.elim 1) = .ok ⟨.conjunctionWeakElim, [⟨[B, A, C], C⟩]⟩ ∧
      q.Provable ∧ Sequent.Provable ⟨[B, A, C], C⟩) := by
  intro A B C s as g v q
  have huses : UsesOnly Rule.invertible ((goal s).run as) := by
    refine .node _ _ _ (by decide) (List.forall_mem_cons.mpr ⟨.goal _, ?_⟩)
    refine List.forall_mem_singleton.mpr (.node _ _ _ (by decide) ?_)
    refine List.forall_mem_singleton.mpr (.node _ _ _ (by decide) ?_)
    refine List.forall_mem_cons.mpr ⟨.goal _, List.forall_mem_singleton.mpr ?_⟩
    exact .node _ _ _ (by decide) (List.forall_mem_nil _)
  have hat : ((goal s).run as).at? [1, 0, 0] = some (goal g) := rfl
  have hg : g.RefutedBy v := by
    constructor
    · decide
    · decide
  have hs : s.RefutedBy v := ((run_invertible.{0}.1 s as huses).1 v).mpr ⟨[1, 0, 0], g, hat, hg⟩
  have hinv : (Request.elim 1).IsInvertible q := ⟨.conj, A, C, rfl, by decide⟩
  have hstep : q.step (.elim 1) = .ok ⟨.conjunctionWeakElim, [⟨[B, A, C], C⟩]⟩ := rfl
  have hq : q.Provable :=
    ⟨[.proveNext (Request.elim 1).call, .proveNext Request.hypothesis.call], rfl⟩
  have hpremise := (run_invertible.{0}.2 q (.elim 1) _ hinv hstep).2.mp hq
  exact ⟨⟨huses, hat, hg, hs⟩, hinv, hstep, hq, hpremise _ List.mem_cons_self⟩

end Derivation

end Sequitur
