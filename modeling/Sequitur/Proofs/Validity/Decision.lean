import Sequitur.Proofs.Validity.Encoding

/-!
# Sequitur.Proofs.Validity.Decision

Checking a sequent decides whether it is classically valid.

The verdict rests on a solver, of which no more is needed than that it is
exact.  No clause of a sequent has zero among its literals (`zero_not_mem`), so an
exact solver finds values for the clauses if there are any, and these give the
countermodel (`decides_check`).
-/

namespace Sequitur

/-! ## Verdicts -/

/-- The values of a countermodel.  Other variables are false. -/
def Countermodel.valuation (m : Countermodel) : Valuation := fun x => (m.lookup x).getD false

/-- What makes a verdict on a sequent right: it is validity if and only if the
sequent is classically valid, and otherwise comes with a countermodel. -/
structure Verdict.Decides (verdict : Verdict) (s : Sequent) : Prop where
  isValid_iff : verdict.isValid = true ↔ s.IsClassicallyValid
  countermodel?_eq_none_iff : verdict.countermodel? = none ↔ s.IsClassicallyValid
  /-- A countermodel has one value for each variable of the sequent, and no others. -/
  names_nodup : ∀ {m}, verdict.countermodel? = some m → (m.map Prod.fst).Nodup
  mem_names_iff : ∀ {m}, verdict.countermodel? = some m → ∀ x, x ∈ m.map Prod.fst ↔ s.Mentions x
  refutedBy : ∀ {m}, verdict.countermodel? = some m → s.RefutedBy m.valuation
  /-- Without variables a countermodel is empty, but there is one. -/
  eq_some_nil : (∀ x, ¬ s.Mentions x) → ¬ s.IsClassicallyValid → verdict.countermodel? = some []

theorem Verdict.decides_valid {s : Sequent} (h : s.IsClassicallyValid) :
    Verdict.valid.Decides s where
  isValid_iff := iff_of_true rfl h
  countermodel?_eq_none_iff := iff_of_true rfl h
  names_nodup := nofun
  mem_names_iff := nofun
  refutedBy := nofun
  eq_some_nil _ hinvalid := absurd h hinvalid

theorem Verdict.decides_invalid {s : Sequent} {m : Countermodel}
    (hnames : m.map Prod.fst = Formula.vars s.formulas) (h : s.RefutedBy m.valuation) :
    (Verdict.invalid m).Decides s := by
  have hinvalid : ¬ s.IsClassicallyValid := fun hs => Sequent.isClassicallyValid_iff.mp hs _ h
  refine ⟨iff_of_false nofun hinvalid, iff_of_false nofun hinvalid, ?_, ?_, ?_, ?_⟩
  · rintro _ ⟨⟩
    rw [hnames]
    exact Formula.nodup_vars _
  · rintro _ ⟨⟩ x
    rw [hnames]
    exact Sequent.mem_vars_formulas
  · rintro _ ⟨⟩
    exact h
  · intro hnone _
    have hvars : Formula.vars s.formulas = [] :=
      List.eq_nil_iff_forall_not_mem.mpr fun x hx => hnone x (Sequent.mem_vars_formulas.mp hx)
    have hm : m = [] := List.map_eq_nil_iff.mp (hnames.trans hvars)
    exact congrArg some hm

namespace Sequent

/-- Zero is the number of no variable. -/
theorem zero_not_mem (s : Sequent) : ∀ c ∈ s.clauseForm.clauses, (0 : Literal) ∉ c := by
  intro c hc hzero
  have hmem := s.clauseForm_encodes.1.literals_mem c hc 0 hzero
  exact absurd hmem.1 (by decide)

/-- The values that are listed for variables are found again. -/
theorem valuation_map {xs : List Name} {v : Valuation} {x : Name} (hx : x ∈ xs) :
    Countermodel.valuation (xs.map fun y => (y, v y)) x = v x := by
  induction xs with
  | nil => exact absurd hx List.not_mem_nil
  | cons y ys ih =>
      rw [Countermodel.valuation, List.map_cons, List.lookup_cons]
      by_cases hxy : x = y
      · simp [hxy]
      · rw [beq_false_of_ne hxy]
        exact ih ((List.mem_cons.mp hx).resolve_left hxy)

/-- The verdict of the check is right. -/
theorem decides_check (s : Sequent) (solver : Solver) : (s.check solver).Decides s := by
  rw [check, countermodel?]
  cases hfind : solver.find s.clauseForm.clauses with
  | none =>
      apply Verdict.decides_valid
      rw [isClassicallyValid_iff]
      intro v hv
      obtain ⟨a, ha⟩ := s.exists_satisfiedBy_iff.mpr ⟨v, hv⟩
      have hsome := solver.isSome_find s.zero_not_mem ha
      rw [hfind] at hsome
      contradiction
  | some values =>
      apply Verdict.decides_invalid
      · rw [List.map_map]
        exact List.map_id _
      · have hholds := solver.holds_of_find s.zero_not_mem hfind
        refine (refutedBy_congr fun x hx => ?_).mp (refutedBy_read hholds)
        exact (valuation_map (mem_vars_formulas.mpr hx)).symm

end Sequent

end Sequitur
