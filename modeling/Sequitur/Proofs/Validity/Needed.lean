import Sequitur.Proofs.Validity.Decision
import Sequitur.Validity.Needed

/-!
# Sequitur.Proofs.Validity.Needed

The search for needed hypotheses.  Validity is monotone in the hypotheses, so
that a hypothesis which could not be given up cannot be given up later either,
when there are fewer of them.  This is the invariant of the search
(`Settled`): the sequent is valid with what is kept, and not valid without any
kept hypothesis that has been looked at.  It holds whatever candidates the
search starts from and whichever solver it asks, and at its end it says that the kept hypotheses suffice and
that none of them can be spared (`exists_settled`).  By monotonicity once more,
not even several of them can be spared at once (`needed?_irreducible`).
-/

namespace Sequitur

namespace Sequent

/-! ## Validity and hypotheses -/

theorem isValid_iff {s : Sequent} {solver : Solver} :
    s.isValid solver = true ↔ s.IsClassicallyValid :=
  (s.decides_check solver).isValid_iff

/-- With more hypotheses a sequent stays valid. -/
theorem IsClassicallyValid.of_subset {s t : Sequent} (h : s.IsClassicallyValid)
    (hhyps : s.hyps ⊆ t.hyps) (hconcl : s.concl = t.concl) : t.IsClassicallyValid := by
  intro v ht
  rw [← hconcl]
  exact h v fun p hp => ht p (hhyps hp)

/-- A sequent is tight if it is not valid without any one of its hypotheses. -/
def IsTight (s : Sequent) : Prop :=
  ∀ i < s.hyps.length, ¬ IsClassicallyValid ⟨s.hyps.eraseIdx i, s.concl⟩

/-! ## Kept hypotheses -/

/-- The elements of a list that are kept. -/
def chosen (kept : List Bool) (hyps : List Formula) : List Formula :=
  ((hyps.zip kept).filter (·.2)).map (·.1)

theorem keeping_eq (s : Sequent) (kept : List Bool) :
    s.keeping kept = ⟨chosen kept s.hyps, s.concl⟩ := rfl

@[simp] theorem chosen_nil (kept : List Bool) : chosen kept [] = [] := rfl

@[simp] theorem chosen_nil_left (hyps : List Formula) : chosen [] hyps = [] := by
  simp [chosen]

@[simp] theorem chosen_cons_true (kept : List Bool) (h : Formula) (hyps : List Formula) :
    chosen (true :: kept) (h :: hyps) = h :: chosen kept hyps := rfl

@[simp] theorem chosen_cons_false (kept : List Bool) (h : Formula) (hyps : List Formula) :
    chosen (false :: kept) (h :: hyps) = chosen kept hyps := rfl

theorem chosen_sublist (kept : List Bool) (hyps : List Formula) :
    (chosen kept hyps).Sublist hyps := by
  induction hyps generalizing kept with
  | nil => exact .slnil
  | cons h hyps ih =>
      match kept with
      | [] => simp
      | true :: kept => exact (ih kept).cons_cons h
      | false :: kept => exact (ih kept).cons h

/-- Giving up one more leaves a part of what was there. -/
theorem chosen_set_sublist (kept : List Bool) (i : Nat) (hyps : List Formula) :
    (chosen (kept.set i false) hyps).Sublist (chosen kept hyps) := by
  induction hyps generalizing kept i with
  | nil => exact .slnil
  | cons h hyps ih =>
      match kept, i with
      | [], _ => simp
      | true :: kept, 0 => exact List.sublist_cons_self h _
      | false :: kept, 0 => exact .refl _
      | true :: kept, i + 1 => exact (ih kept i).cons_cons h
      | false :: kept, i + 1 => exact ih kept i

theorem chosen_of_forall {kept : List Bool} {hyps : List Formula}
    (hlength : kept.length = hyps.length) (h : false ∉ kept) : chosen kept hyps = hyps := by
  induction hyps generalizing kept with
  | nil => rfl
  | cons p hyps ih =>
      match kept with
      | [] => contradiction
      | false :: kept => exact absurd List.mem_cons_self h
      | true :: kept =>
          have hrest : chosen kept hyps = hyps :=
            ih (Nat.succ.inj hlength) fun hmem => h (List.mem_cons_of_mem true hmem)
          rw [chosen_cons_true, hrest]

/-- What is kept lacks each hypothesis that is not. -/
theorem chosen_sublist_eraseIdx {kept : List Bool} {i : Nat} {hyps : List Formula}
    (h : kept[i]? = some false) : (chosen kept hyps).Sublist (hyps.eraseIdx i) := by
  induction hyps generalizing kept i with
  | nil => exact .slnil
  | cons p hyps ih =>
      match kept, i with
      | [], _ => contradiction
      | true :: kept, 0 => simp at h
      | false :: kept, 0 => exact chosen_sublist kept hyps
      | true :: kept, i + 1 =>
          have hrest : kept[i]? = some false := h
          exact (ih hrest).cons_cons p
      | false :: kept, i + 1 =>
          have hrest : kept[i]? = some false := h
          exact (ih hrest).cons p

/-- To remove one of the kept elements is to keep it no longer. -/
theorem exists_eraseIdx_chosen {kept : List Bool} {i : Nat} {hyps : List Formula}
    (h : i < (chosen kept hyps).length) :
    ∃ j, kept[j]? = some true ∧
      (chosen kept hyps).eraseIdx i = chosen (kept.set j false) hyps := by
  induction hyps generalizing kept i with
  | nil => contradiction
  | cons p hyps ih =>
      match kept, i with
      | [], _ => simp at h
      | true :: kept, 0 => exact ⟨0, rfl, rfl⟩
      | true :: kept, i + 1 =>
          obtain ⟨j, hj, herase⟩ := ih (Nat.succ_lt_succ_iff.mp h)
          exact ⟨j + 1, hj, congrArg (p :: ·) herase⟩
      | false :: kept, i =>
          obtain ⟨j, hj, herase⟩ := ih h
          exact ⟨j + 1, hj, herase⟩

/-! ## The search -/

/-- How far a search has come that has looked at `n` hypotheses: the sequent is
valid with what is kept, and not without any of the kept hypotheses among
those `n`. -/
structure Settled (s : Sequent) (kept : List Bool) (n : Nat) : Prop where
  length_eq : kept.length = s.hyps.length
  valid : (s.keeping kept).IsClassicallyValid
  needed : ∀ i < n, kept[i]? = some true → ¬ (s.keeping (kept.set i false)).IsClassicallyValid

namespace Settled

variable {s : Sequent} {kept : List Bool} {n : Nat}

/-- Looking at a hypothesis that is not kept, or that cannot be given up. -/
theorem keep (h : s.Settled kept n)
    (hn : kept[n]? = some true → ¬ (s.keeping (kept.set n false)).IsClassicallyValid) :
    s.Settled kept (n + 1) where
  length_eq := h.length_eq
  valid := h.valid
  needed i hi := by
    rcases Nat.lt_succ_iff_lt_or_eq.mp hi with hlt | rfl
    · exact h.needed i hlt
    · exact hn

/-- Giving up a hypothesis.  Those looked at before stay needed, since what is
left without them is a part of what was left before. -/
theorem giveUp (h : s.Settled kept n)
    (hn : (s.keeping (kept.set n false)).IsClassicallyValid) :
    s.Settled (kept.set n false) (n + 1) where
  length_eq := by rw [List.length_set, h.length_eq]
  valid := hn
  needed i hi hkept hvalid := by
    have hne : n ≠ i := by
      rintro rfl
      rw [List.getElem?_set_self'] at hkept
      cases hget : kept[n]? <;> simp [hget] at hkept
    have hlt : i < n := by omega
    rw [List.getElem?_set_ne hne] at hkept
    rw [List.set_comm false false hne] at hvalid
    exact h.needed i hlt hkept
      (hvalid.of_subset (chosen_set_sublist (kept.set i false) n s.hyps).subset rfl)

/-- Once all hypotheses have been looked at, those that are kept make a tight
sequent. -/
theorem isTight_keeping (h : s.Settled kept s.hyps.length) : (s.keeping kept).IsTight := by
  intro i hi hvalid
  obtain ⟨j, hj, herase⟩ := exists_eraseIdx_chosen hi
  obtain ⟨hlt, -⟩ := List.getElem?_eq_some_iff.mp hj
  refine h.needed j (h.length_eq ▸ hlt) hj ?_
  rw [keeping_eq, ← herase]
  exact hvalid

/-- Of a tight sequent everything is kept. -/
theorem not_mem_of_isTight (h : s.Settled kept n) (htight : s.IsTight) : false ∉ kept := by
  intro hmem
  obtain ⟨i, hi⟩ := List.mem_iff_getElem?.mp hmem
  obtain ⟨hlt, -⟩ := List.getElem?_eq_some_iff.mp hi
  exact htight i (h.length_eq ▸ hlt)
    (h.valid.of_subset (chosen_sublist_eraseIdx hi).subset rfl)

theorem keeping_eq_self (h : s.Settled kept n) (hall : false ∉ kept) : s.keeping kept = s := by
  rw [keeping_eq, chosen_of_forall h.length_eq hall]

end Settled

variable {s : Sequent}

/-- The search keeps the invariant to its end. -/
theorem settled_giveUp (solver : Solver) {before after : List Bool}
    (h : s.Settled (before.reverse ++ after) before.length) :
    s.Settled (s.giveUp solver before after) s.hyps.length := by
  induction after generalizing before with
  | nil =>
      have hlength := h.length_eq
      rw [List.append_nil] at h hlength
      rw [giveUp, ← hlength, List.length_reverse]
      exact h
  | cons flag after ih =>
      have hlook : ∀ b, (b :: before).reverse ++ after = before.reverse ++ b :: after := by simp
      have hget : (before.reverse ++ flag :: after)[before.length]? = some flag := by
        simp
      have hset : (before.reverse ++ flag :: after).set before.length false =
          before.reverse ++ false :: after := by
        simp
      cases flag with
      | false =>
          rw [Sequent.giveUp]
          refine ih ?_
          rw [hlook]
          exact h.keep fun htrue => by rw [hget] at htrue; contradiction
      | true =>
          rw [Sequent.giveUp]
          split
          next hvalid =>
            refine ih ?_
            rw [hlook, ← hset]
            exact h.giveUp (hset ▸ isValid_iff.mp hvalid)
          next hvalid =>
            refine ih ?_
            rw [hlook]
            exact h.keep fun _ => hset ▸ mt isValid_iff.mpr hvalid

/-- Whatever the candidates are, the search starts from hypotheses that suffice. -/
theorem settled_startingFrom (hvalid : s.IsClassicallyValid) (solver : Solver)
    (source : CandidateSource) : s.Settled (s.startingFrom solver source) 0 := by
  have hevery : s.Settled (s.hyps.map fun _ => true) 0 := by
    have hlength : (s.hyps.map fun _ => true).length = s.hyps.length := List.length_map _
    refine ⟨hlength, ?_, nofun⟩
    rw [keeping_eq, chosen_of_forall hlength (by simp)]
    exact hvalid
  rw [startingFrom]
  cases source s with
  | none => exact hevery
  | some is =>
      dsimp only
      split
      next hchosen => exact ⟨by simp, isValid_iff.mp hchosen, nofun⟩
      next => exact hevery

/-- **The needed hypotheses** of a valid sequent suffice, and none of them can
be spared, whatever the solver and wherever the candidates come from. -/
theorem exists_settled (hvalid : s.IsClassicallyValid) (solver : Solver)
    (source : CandidateSource) :
    ∃ kept, s.Settled kept s.hyps.length ∧
      s.needed? source solver = some (positionsKept 0 kept) := by
  refine ⟨s.giveUp solver [] (s.startingFrom solver source), settled_giveUp solver ?_, ?_⟩
  · exact settled_startingFrom hvalid solver source
  · rw [needed?, if_pos (isValid_iff.mpr hvalid)]

/-! ## Positions -/

theorem mem_positionsKept {i j : Nat} {kept : List Bool} :
    j ∈ positionsKept i kept ↔ ∃ k, j = i + k ∧ kept[k]? = some true := by
  induction kept generalizing i with
  | nil => simp [positionsKept]
  | cons flag kept ih =>
      have hrest : j ∈ positionsKept (i + 1) kept ↔
          ∃ k, j = i + (k + 1) ∧ kept[k]? = some true := by
        simp only [ih, Nat.add_assoc, Nat.add_comm 1]
      rw [← Nat.or_exists_add_one]
      cases flag with
      | false => simp [positionsKept, hrest]
      | true => simp [positionsKept, hrest]

theorem mem_positionsKept_zero {i : Nat} {kept : List Bool} :
    i ∈ positionsKept 0 kept ↔ kept[i]? = some true := by
  simp [mem_positionsKept]

/-- Positions are listed from the first to the last. -/
theorem pairwise_positionsKept (i : Nat) (kept : List Bool) :
    (positionsKept i kept).Pairwise (· < ·) := by
  induction kept generalizing i with
  | nil => exact .nil
  | cons flag kept ih =>
      cases flag with
      | false => exact ih (i + 1)
      | true =>
          refine .cons ?_ (ih (i + 1))
          intro j hj
          obtain ⟨k, rfl, -⟩ := mem_positionsKept.mp hj
          omega

/-- The sequent with only the hypotheses at the given positions. -/
def onlyAt (s : Sequent) (is : List Nat) : Sequent := ⟨is.filterMap (s.hyps[·]?), s.concl⟩

theorem mem_hyps_onlyAt {is : List Nat} {p : Formula} :
    p ∈ (s.onlyAt is).hyps ↔ ∃ i ∈ is, s.hyps[i]? = some p := List.mem_filterMap

theorem mem_chosen {kept : List Bool} {hyps : List Formula} {p : Formula} :
    p ∈ chosen kept hyps ↔ ∃ i : Nat, kept[i]? = some true ∧ hyps[i]? = some p := by
  induction hyps generalizing kept with
  | nil => simp
  | cons h hyps ih =>
      match kept with
      | [] => simp
      | flag :: kept =>
          have hsplit := @Nat.or_exists_add_one fun i =>
            (flag :: kept)[i]? = some true ∧ (h :: hyps)[i]? = some p
          rw [← hsplit]
          cases flag with
          | true => simp [ih, eq_comm (a := p)]
          | false => simp [ih]

namespace Settled

variable {kept : List Bool} {n : Nat}

/-- The positions that are kept suffice. -/
theorem valid_onlyAt (h : s.Settled kept n) :
    (s.onlyAt (positionsKept 0 kept)).IsClassicallyValid := by
  refine h.valid.of_subset (fun p hp => ?_) rfl
  obtain ⟨i, hkept, hi⟩ := mem_chosen.mp hp
  exact mem_hyps_onlyAt.mpr ⟨i, mem_positionsKept_zero.mpr hkept, hi⟩

/-- Once all hypotheses have been looked at, no other choice among the positions
that are kept suffices: it lacks one of them, and is a part of what is left
without that one. -/
theorem not_valid_onlyAt (h : s.Settled kept s.hyps.length) {js : List Nat}
    (hsub : js ⊆ positionsKept 0 kept) (hproper : ¬ positionsKept 0 kept ⊆ js) :
    ¬ (s.onlyAt js).IsClassicallyValid := by
  obtain ⟨i, hi, hlacks⟩ : ∃ i ∈ positionsKept 0 kept, i ∉ js := by
    simpa [List.subset_def] using hproper
  have hkept : kept[i]? = some true := mem_positionsKept_zero.mp hi
  obtain ⟨hlt, -⟩ := List.getElem?_eq_some_iff.mp hkept
  intro hvalid
  refine h.needed i (h.length_eq ▸ hlt) hkept (hvalid.of_subset (fun p hp => ?_) rfl)
  obtain ⟨j, hj, hp⟩ := mem_hyps_onlyAt.mp hp
  have hne : i ≠ j := fun heq => hlacks (heq ▸ hj)
  refine mem_chosen.mpr ⟨j, ?_, hp⟩
  rw [List.getElem?_set_ne hne, mem_positionsKept_zero.mp (hsub hj)]

end Settled

/-- **The needed hypotheses suffice and are irreducible**, whatever the solver, and
wherever the candidates come from, whether or not these suffice.  For a valid sequent there is an answer:
positions of hypotheses in strictly increasing order, such that the sequent with
only these hypotheses is valid, and with only some of them, but not all, is not.
For any other sequent there is none. -/
theorem needed?_irreducible (solver : Solver) (source : CandidateSource) (s : Sequent) :
    (s.IsClassicallyValid → ∃ is, s.needed? source solver = some is ∧ is.Pairwise (· < ·) ∧
      (∀ i ∈ is, i < s.hyps.length) ∧ (s.onlyAt is).IsClassicallyValid ∧
      ∀ js, js ⊆ is → ¬ is ⊆ js → ¬ (s.onlyAt js).IsClassicallyValid) ∧
    (¬ s.IsClassicallyValid → s.needed? source solver = none) := by
  constructor
  · intro hvalid
    obtain ⟨kept, hkept, hneeded⟩ := exists_settled hvalid solver source
    refine ⟨positionsKept 0 kept, hneeded, pairwise_positionsKept 0 kept, ?_, hkept.valid_onlyAt,
      fun js => hkept.not_valid_onlyAt⟩
    intro i hi
    obtain ⟨hlt, -⟩ := List.getElem?_eq_some_iff.mp (mem_positionsKept_zero.mp hi)
    exact hkept.length_eq ▸ hlt
  · intro hvalid
    rw [needed?, if_neg (mt isValid_iff.mp hvalid)]

/-- A sequent with its conclusion among the hypotheses twice, and candidates that
do not suffice: of the two the last is needed, and nothing is not enough.  Without
a hypothesis that helps there is no answer. -/
theorem needed?_irreducible_repeated :
    let A : Formula := .var ⟨⟨'A', rfl⟩, []⟩
    let B : Formula := .var ⟨⟨'B', rfl⟩, []⟩
    let source : CandidateSource := fun _ => some [1]
    IsClassicallyValid ⟨[A, B, A], A⟩ ∧
      needed? source ⟨[A, B, A], A⟩ = some [2] ∧
      ¬ (onlyAt ⟨[A, B, A], A⟩ []).IsClassicallyValid ∧
      ¬ IsClassicallyValid ⟨[B], A⟩ ∧ needed? source ⟨[B], A⟩ = none := by
  intro A B source
  have hvalid : IsClassicallyValid ⟨[A, B, A], A⟩ := fun v hv => hv A List.mem_cons_self
  have hnot : ¬ IsClassicallyValid ⟨[B], A⟩ := by
    have hinvalid : isValid ⟨[B], A⟩ = false := by decide +kernel
    rw [← isValid_iff, hinvalid]
    exact Bool.false_ne_true
  have hneeded : needed? source ⟨[A, B, A], A⟩ = some [2] := by decide +kernel
  obtain ⟨is, his, -, -, -, hproper⟩ := (needed?_irreducible .learning source ⟨[A, B, A], A⟩).1 hvalid
  obtain rfl : is = [2] := Option.some.inj (his.symm.trans hneeded)
  exact ⟨hvalid, hneeded, hproper [] (by simp) (by simp), hnot,
    (needed?_irreducible .learning source ⟨[B], A⟩).2 hnot⟩

end Sequent

end Sequitur
