import Sequitur.Proofs.Derivation.Reachable
import Sequitur.Proofs.Logic.Kripke
import Sequitur.Proofs.Rule.Inference

/-!
# Sequitur.Proofs.Logic.Soundness

Soundness for Kripke models.  In a model in which the premises of an
inference hold, its conclusion holds (`Inference.holds`).  By induction over
a well-formed derivation, every node of it holds in a model in which its
goals hold (`WellFormed.holds_at`); runs keep derivations well formed, so
this is true of whatever a user can reach.

A complete derivation has no goals, so its sequent holds everywhere.  That
rules out the principles of classical logic that are not intuitionistic.
-/

universe u

namespace Sequitur

open KripkeModel

/-! ## One inference -/

section

variable {M : KripkeModel.{u}} {w : M.World}

/-- A chain of implications is forced where its end is forced in every later
world that forces all antecedents. -/
theorem forces_of_strip {p : Formula}
    (h : ∀ v, w ≤ v → M.ForcesAll v (Sequent.strip p).1 → M.Forces v (Sequent.strip p).2) :
    M.Forces w p := by
  fun_induction Sequent.strip p generalizing w with
  | case1 l r antecedents concl hr ih =>
      simp only [forcesAll_cons, and_imp] at h
      intro v hwv hl
      rw [hr] at ih
      -- the antecedent forced at `v` is still forced where the others are
      apply ih
      intro u hvu hants
      exact h u (le_trans hwv hvu) (hl.mono hvu) hants
  | case2 p _ => exact h w (le_refl w) forcesAll_nil

theorem holds_of_impl {hyps : List Formula} {l r : Formula} (h : M.Holds ⟨hyps ++ [l], r⟩) :
    M.Holds ⟨hyps, .impl l r⟩ := by
  intro w hhyps v hwv hl
  apply h v
  simp only [forcesAll_append, forcesAll_cons, forcesAll_nil, and_true]
  exact ⟨hhyps.mono hwv, hl⟩

/-- In a model where the premises of an inference hold, so does its conclusion. -/
theorem Sequent.Inference.holds {s : Sequent} {k : Rule} {premises : List Sequent}
    (hinf : s.Inference k premises) (hprem : ∀ p ∈ premises, M.Holds p) : M.Holds s := by
  obtain ⟨hyps, concl⟩ := s
  cases hinf with
  | hypothesis hmem =>
      intro w hhyps
      exact hhyps concl hmem
  | implicationIntro hconcl =>
      obtain rfl := hconcl
      exact holds_of_impl (hprem _ List.mem_cons_self)
  | implicationIntros =>
      intro w hhyps
      apply forces_of_strip
      intro v hwv hants
      exact hprem _ List.mem_cons_self v (forcesAll_append.mpr ⟨hhyps.mono hwv, hants⟩)
  | modusPonens b =>
      simp only [List.forall_mem_cons] at hprem
      obtain ⟨himpl, hb, -⟩ := hprem
      intro w hhyps
      exact himpl w hhyps w (le_refl w) (hb w hhyps)
  | weakModusPonens hmem =>
      simp only [List.forall_mem_cons] at hprem
      obtain ⟨hl, -⟩ := hprem
      intro w hhyps
      exact hhyps _ hmem w (le_refl w) (hl w hhyps)
  | disjunctionIntroLeft hconcl =>
      obtain rfl := hconcl
      intro w hhyps
      exact Or.inl (hprem _ List.mem_cons_self w hhyps)
  | disjunctionIntroRight hconcl =>
      obtain rfl := hconcl
      intro w hhyps
      exact Or.inr (hprem _ List.mem_cons_self w hhyps)
  | disjunctionElim a b =>
      simp only [List.forall_mem_cons] at hprem
      obtain ⟨hdisj, ha, hb, -⟩ := hprem
      intro w hhyps
      rcases hdisj w hhyps with hwa | hwb
      · exact ha w (by simp [hhyps, hwa])
      · exact hb w (by simp [hhyps, hwb])
  | disjunctionWeakElim hsplit =>
      obtain rfl := hsplit
      simp only [List.forall_mem_cons] at hprem
      obtain ⟨hl, hr, -⟩ := hprem
      intro w hhyps
      simp only [forcesAll_append, forcesAll_cons, forces_disj] at hhyps
      obtain ⟨hbefore, hwl | hwr, hafter⟩ := hhyps
      · exact hl w (by simp [hbefore, hwl, hafter])
      · exact hr w (by simp [hbefore, hwr, hafter])
  | conjunctionIntro hconcl =>
      obtain rfl := hconcl
      simp only [List.forall_mem_cons] at hprem
      obtain ⟨hl, hr, -⟩ := hprem
      intro w hhyps
      exact ⟨hl w hhyps, hr w hhyps⟩
  | conjunctionElim a b =>
      simp only [List.forall_mem_cons] at hprem
      obtain ⟨hconj, hrest, -⟩ := hprem
      intro w hhyps
      obtain ⟨hwa, hwb⟩ := hconj w hhyps
      exact hrest w (by simp [hhyps, hwa, hwb])
  | conjunctionWeakElim hsplit =>
      obtain rfl := hsplit
      intro w hhyps
      simp only [forcesAll_append, forcesAll_cons, forces_conj] at hhyps
      obtain ⟨hbefore, ⟨hwl, hwr⟩, hafter⟩ := hhyps
      exact hprem _ List.mem_cons_self w (by simp [hbefore, hwl, hwr, hafter])
  | equivalenceIntro hconcl =>
      obtain rfl := hconcl
      simp only [List.forall_mem_cons] at hprem
      obtain ⟨hl, hr, -⟩ := hprem
      intro w hhyps
      exact ⟨hl w hhyps, hr w hhyps⟩
  | equivalenceWeakElim hsplit =>
      obtain rfl := hsplit
      intro w hhyps
      simp only [forcesAll_append, forcesAll_cons, forces_equiv] at hhyps
      obtain ⟨hbefore, ⟨hlr, hrl⟩, hafter⟩ := hhyps
      apply hprem _ List.mem_cons_self w
      simp only [forcesAll_append, forcesAll_cons]
      exact ⟨hbefore, hlr, hrl, hafter⟩
  | exfalso =>
      intro w hhyps
      exact (hprem _ List.mem_cons_self w hhyps).elim
  | weaken hsub =>
      intro w hhyps
      exact hprem _ List.mem_cons_self w (hhyps.of_subset hsub.subset)

end

/-! ## Derivations -/

namespace Derivation

variable {M : KripkeModel.{u}}

/-- The root of a well-formed derivation holds where its goals hold. -/
theorem WellFormed.holds {d : Derivation} (hd : WellFormed d)
    (hgoals : ∀ path s, d.at? path = some (.goal s) → M.Holds s) : M.Holds d.sequent := by
  induction hd with
  | goal s => exact hgoals [] s rfl
  | node s r k ds hstep _ ih =>
      apply (Sequent.inference_of_step hstep).holds
      intro p hp
      obtain ⟨d, hd, rfl⟩ := List.mem_map.mp hp
      obtain ⟨i, hi⟩ := exists_at?_of_mem (s := s) (k := k) hd
      apply ih d hd
      intro path g hat
      exact hgoals (i :: path) g ((hi path).trans hat)

/-- So does every other node: the goals below it are goals of the whole. -/
theorem WellFormed.holds_at {d n : Derivation} {path : Path} (hd : WellFormed d)
    (hgoals : ∀ path s, d.at? path = some (.goal s) → M.Holds s) (hat : d.at? path = some n) :
    M.Holds n.sequent := by
  apply (hd.of_at? hat).holds
  intro more g hg
  apply hgoals (path ++ more) g
  rw [at?_append, hat, Option.bind_some, hg]

/-- A well-formed derivation without goals proves a valid sequent. -/
theorem WellFormed.isValid {d : Derivation} (hd : WellFormed d) (h : d.isComplete = true) :
    d.sequent.IsValid.{u} := by
  intro M
  exact hd.holds fun path g hat => absurd hat (isComplete_iff.mp h path g)

/-! ## Runs -/

/-- A complete derivation that a run has led to proves a valid sequent. -/
theorem isValid_of_run_isComplete {s : Sequent} {as : List Action}
    (h : ((goal s).run as).isComplete = true) : s.IsValid.{u} := by
  have hvalid := (wellFormed_run (.goal s) as).isValid h
  rwa [sequent_run] at hvalid

/-- A sequent with a countermodel is never proved. -/
theorem run_isComplete_eq_false {s : Sequent} {M : KripkeModel.{u}} (h : ¬ M.Holds s)
    (as : List Action) : ((goal s).run as).isComplete = false := by
  rw [Bool.eq_false_iff]
  intro hcomplete
  exact h (isValid_of_run_isComplete hcomplete M)

/-- **Soundness.**  After any run from a goal, in a Kripke model in which all
goals that are left hold, all nodes hold, the first goal among them.  So only
valid sequents are ever proved, and neither falsity nor the excluded middle
nor Peirce's law is. -/
theorem run_sound (s : Sequent) (as : List Action) :
    (∀ M : KripkeModel.{u},
      (∀ path g, ((goal s).run as).at? path = some (goal g) → M.Holds g) →
      M.Holds s ∧ ∀ path n, ((goal s).run as).at? path = some n → M.Holds n.sequent) ∧
    (((goal s).run as).isComplete = true → s.IsValid.{u}) ∧
    ((goal ⟨[], .falsity⟩).run as).isComplete = false ∧
    (∀ x, ((goal ⟨[], .disj (.var x) (.neg (.var x))⟩).run as).isComplete = false) ∧
    (∀ x y, x ≠ y →
      ((goal ⟨[], .impl (.impl (.impl (.var x) (.var y)) (.var x)) (.var x)⟩).run
        as).isComplete = false) := by
  refine ⟨?_, isValid_of_run_isComplete, ?_, ?_, ?_⟩
  · intro M hgoals
    have hwf : WellFormed ((goal s).run as) := wellFormed_run (.goal s) as
    have hroot : M.Holds ((goal s).run as).sequent := hwf.holds hgoals
    rw [sequent_run] at hroot
    exact ⟨hroot, fun path n hat => hwf.holds_at hgoals hat⟩
  · exact run_isComplete_eq_false (learning_not_holds_falsity ⟨⟨'A', rfl⟩, []⟩) as
  · intro x
    exact run_isComplete_eq_false (learning_not_holds_excludedMiddle x) as
  · intro x y hxy
    exact run_isComplete_eq_false (learning_not_holds_peirce hxy) as

/-- A run with a step that fails, at a path that leads nowhere, still proves
`A -> A`, which is therefore valid. -/
theorem run_sound_identity :
    let A : Formula := .var ⟨⟨'A', rfl⟩, []⟩
    let s : Sequent := ⟨[], .impl A A⟩
    let as : List Action := [.proveNext Request.implIntro.call,
      .applyAt [7] Request.exfalso.call, .applyAt [0] Request.hypothesis.call]
    ((goal s).run as).isComplete = true ∧ s.IsValid.{u} := by
  intro A s as
  have hcomplete : ((goal s).run as).isComplete = true := by decide
  exact ⟨hcomplete, (run_sound s as).2.1 hcomplete⟩

end Derivation

end Sequitur
