import Sequitur.Proofs.Derivation.Order
import Sequitur.Proofs.Logic.Completeness

/-!
# Sequitur.Proofs.Logic.Provability

What can be proved at all.  A sequent is provable if some run, with rules
applied anywhere and in any order, makes its derivation complete; a script
does as well (`provable_iff_scriptable`).

The requests have no rule for cutting several formulas at once, nor one for
adding hypotheses in the middle of the list.  Both come from one detour
(`Scriptable.cut`):

* all hypotheses are moved into the conclusion, as a chain of implications
  (`scriptable_chain`);
* a conclusion without hypotheses is proved under any others, which are
  weakened away at once (`Scriptable.under`);
* the chain is taken down again by modus ponens (`Scriptable.discharge`).
-/

namespace Sequitur

/-- A sequent is provable if some run makes its derivation complete. -/
def Sequent.Provable (s : Sequent) : Prop :=
  ∃ as : List Derivation.Action, ((Derivation.goal s).run as).isComplete = true

namespace Derivation

/-! ## Scripts as runs -/

theorem proveNextCall_call {d d' : Derivation} {r : Request} (h : d.proveNext r = .ok d') :
    d.proveNextCall r.call = .ok d' := by
  obtain ⟨path, s, step, hnext, hat, hstep, rfl⟩ := proveNext_eq_ok h
  have happly : d.applyAt path r = .ok (d.replace (ofStep s step) path) :=
    applyAt_eq_ok_iff.mpr ⟨s, step, hat, hstep, rfl⟩
  rw [proveNextCall, hnext]
  simp only [applyCallAt, hat, Request.check_call, happly]

/-- A list of requests that succeeds is a run. -/
theorem run_of_foldlM {d d' : Derivation} {rs : List Request}
    (h : rs.foldlM proveNext d = .ok d') :
    d.run (rs.map fun r => .proveNext r.call) = d' := by
  induction rs generalizing d with
  | nil => exact Except.ok.inj h
  | cons r rs ih =>
      rw [List.foldlM_cons] at h
      cases hr : d.proveNext r with
      | error e => rw [hr] at h; contradiction
      | ok d₁ =>
          rw [hr] at h
          have hafter : d.after (.proveNext r.call) = d₁ := by
            rw [after, attempt, proveNextCall_call hr]
          rw [List.map_cons, run, List.foldl_cons, hafter]
          exact ih h

/-- What a run can prove, a script can. -/
theorem provable_iff_scriptable {s : Sequent} : s.Provable ↔ Scriptable s := by
  constructor
  · rintro ⟨as, hcomplete⟩
    obtain ⟨rs, hscript, -⟩ := (wellFormed_run (.goal s) as).exists_script hcomplete
    exact ⟨rs, _, hscript, sequent_run (goal s) as⟩
  · rintro ⟨rs, d, hscript, rfl⟩
    refine ⟨rs.map fun r => .proveNext r.call, ?_⟩
    rw [run_of_foldlM hscript.builds]
    exact hscript.complete

/-! ## Hypotheses moved into the conclusion -/

/-- The implication from each formula of a list, in order, to `p`. -/
def chain (ps : List Formula) (p : Formula) : Formula := ps.foldr .impl p

variable {hyps ps : List Formula} {p : Formula}

theorem scriptable_chain (h : Scriptable ⟨hyps ++ ps, p⟩) : Scriptable ⟨hyps, chain ps p⟩ := by
  induction ps generalizing hyps with
  | nil => rwa [List.append_nil] at h
  | cons q ps ih =>
      rw [List.append_cons] at h
      exact scriptable_impl (ih h)

/-- A chain is left again where all its antecedents can be proved. -/
theorem Scriptable.discharge (h : Scriptable ⟨hyps, chain ps p⟩)
    (hps : ∀ q ∈ ps, Scriptable ⟨hyps, q⟩) : Scriptable ⟨hyps, p⟩ := by
  induction ps with
  | nil => exact h
  | cons q ps ih =>
      obtain ⟨hq, hrest⟩ := List.forall_mem_cons.mp hps
      exact ih (scriptable_of_impl h hq) hrest

/-- Removing every position from `i` on removes everything. -/
theorem without_eq_nil {is : List Int} {i : Nat}
    (h : ∀ j, j < hyps.length → ((i + j : Nat) : Int) ∈ is) : Sequent.without is i hyps = [] := by
  induction hyps generalizing i with
  | nil => rfl
  | cons q hyps ih =>
      have hfirst : (i : Int) ∈ is := h 0 (Nat.zero_lt_succ _)
      have hrest : Sequent.without is (i + 1) hyps = [] := by
        refine ih fun j hj => ?_
        rw [Nat.add_assoc, Nat.add_comm 1 j]
        exact h (j + 1) (Nat.succ_lt_succ hj)
      rw [Sequent.without, hrest]
      simp [hfirst]

/-- All hypotheses can be weakened away at once, if there are any. -/
theorem step_weaken_all (hne : hyps ≠ []) :
    Sequent.step ⟨hyps, p⟩ (.weaken ((List.range hyps.length).map Int.ofNat)) =
      .ok ⟨.weaken, [⟨[], p⟩]⟩ := by
  have hpositions : ((List.range hyps.length).map Int.ofNat).isEmpty = false := by
    simpa using hne
  have hexist : ((List.range hyps.length).map Int.ofNat).all
      (fun i => (Sequent.hyp? ⟨hyps, p⟩ i).isSome) = true := by
    simp [List.all_eq_true, Sequent.hyp?, nth?]
  have hnone : Sequent.without ((List.range hyps.length).map Int.ofNat) 0 hyps = [] :=
    without_eq_nil fun j hj => by
      rw [Nat.zero_add]
      exact List.mem_map_of_mem (List.mem_range.mpr hj)
  simp only [Sequent.step, Sequent.weaken, hpositions, hexist, hnone]
  rfl

/-- What is proved without hypotheses is proved under any. -/
theorem Scriptable.under (h : Scriptable ⟨[], p⟩) (hyps : List Formula) :
    Scriptable ⟨hyps, p⟩ := by
  by_cases hne : hyps = []
  · rwa [hne]
  · exact scriptable_of_step (step_weaken_all hne) (by simp [h])

/-! ## Cut -/

/-- **Cut.**  What follows from formulas that can be proved can be proved. -/
theorem Scriptable.cut (h : Scriptable ⟨ps, p⟩) (hps : ∀ q ∈ ps, Scriptable ⟨hyps, q⟩) :
    Scriptable ⟨hyps, p⟩ := by
  have hclosed : Scriptable ⟨[], chain ps p⟩ := scriptable_chain h
  exact (hclosed.under hyps).discharge hps

/-- What is proved under some hypotheses is proved under more of them, in
whatever order. -/
theorem Scriptable.of_subset (h : Scriptable ⟨ps, p⟩) (hsub : ps ⊆ hyps) : Scriptable ⟨hyps, p⟩ :=
  h.cut fun _ hq => scriptable_of_mem (hsub hq)

end Derivation

end Sequitur
