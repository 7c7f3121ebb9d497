import Mathlib.Data.List.Dedup
import Mathlib.Data.List.Sort
import Sequitur.Proofs.Rule.Applicability

/-!
# Sequitur.Proofs.Rule.Removal

Removing hypotheses at several positions is removing them one at a time.  When
one of them is gone the positions behind it shift, so the largest position comes
first: the positions that are still to be dealt with are then where they were
(`without_without`).

`RemovesEach` is the removal one at a time, told by the answers to requests with
a single position.  It follows that a request for several positions only depends
on which positions are named, and how many hypotheses it leaves
(`RemovesEach.length_hyps`); which ones is said by `without_eq_map_filter`.
-/

namespace Sequitur

namespace Sequent

/-! ## Positions in a list -/

section

variable {is js : List Int}

theorem without_cons (is : List Int) (k : Nat) (h : Formula) (hs : List Formula) :
    without is k (h :: hs) =
      if (k : Int) ∈ is then without is (k + 1) hs else h :: without is (k + 1) hs := by
  rw [without]
  simp only [List.contains_iff_mem]

/-- Positions in front of the list have nothing to remove. -/
theorem without_of_forall_lt {k : Nat} (his : ∀ i ∈ is, i < (k : Int)) (hs : List Formula) :
    without is k hs = hs := by
  induction hs generalizing k with
  | nil => rfl
  | cons h hs ih =>
      have hfirst : (k : Int) ∉ is := fun hmem => Int.lt_irrefl _ (his k hmem)
      have hrest : ∀ i ∈ is, i < ((k + 1 : Nat) : Int) := by
        intro i hi
        have hlt := his i hi
        omega
      rw [without_cons, if_neg hfirst, ih hrest]

/-- Only membership of the positions counts. -/
theorem without_congr (h : ∀ i, i ∈ is ↔ i ∈ js) (k : Nat) (hs : List Formula) :
    without is k hs = without js k hs := by
  induction hs generalizing k with
  | nil => rfl
  | cons p hs ih => simp only [without_cons, h, ih]

/-- What is left are the hypotheses at the other positions, in their order. -/
theorem without_eq_map_filter (is : List Int) (k : Nat) (hs : List Formula) :
    without is k hs = ((hs.zipIdx k).filter fun p => (p.2 : Int) ∉ is).map Prod.fst := by
  induction hs generalizing k with
  | nil => rfl
  | cons h hs ih =>
      rw [without_cons, List.zipIdx_cons, List.filter_cons]
      by_cases hk : (k : Int) ∈ is
      · simp [hk, ih]
      · simp [hk, ih]

/-- A single position is removed by erasing it. -/
theorem without_singleton (k i : Nat) (hs : List Formula) :
    without [((k + i : Nat) : Int)] k hs = hs.eraseIdx i := by
  induction hs generalizing k i with
  | nil => rfl
  | cons h hs ih =>
      rw [without_cons]
      cases i with
      | zero =>
          have hrest : ∀ j ∈ [((k : Nat) : Int)], j < ((k + 1 : Nat) : Int) := by
            rw [List.forall_mem_singleton]
            omega
          rw [if_pos (by simp), Nat.add_zero, without_of_forall_lt hrest, List.eraseIdx_cons_zero]
      | succ i =>
          have hne : (k : Int) ∉ [((k + (i + 1) : Nat) : Int)] := by
            rw [List.mem_singleton]
            omega
          rw [if_neg hne, Nat.add_comm i 1, ← Nat.add_assoc, ih, Nat.add_comm 1 i,
            List.eraseIdx_cons_succ]

/-- **The largest position can go first**: the others stay where they are. -/
theorem without_without {i : Int} (his : ∀ j ∈ is, j < i) (k : Nat) (hs : List Formula) :
    without is k (without [i] k hs) = without (i :: is) k hs := by
  induction hs generalizing k with
  | nil => rfl
  | cons h hs ih =>
      by_cases hk : (k : Int) = i
      · -- nothing is left to remove behind the largest position
        subst hk
        have hbehind : ∀ j ∈ (k : Int) :: is, j < ((k + 1 : Nat) : Int) := by
          rw [List.forall_mem_cons]
          refine ⟨by omega, fun j hj => ?_⟩
          have hlt := his j hj
          omega
        have hone : ∀ j ∈ [(k : Int)], j < ((k + 1 : Nat) : Int) :=
          fun j hj => hbehind j (List.mem_cons.mpr (.inl (List.mem_singleton.mp hj)))
        rw [without_cons, if_pos (List.mem_singleton_self _), without_of_forall_lt hone,
          without_of_forall_lt his, without_cons, if_pos List.mem_cons_self,
          without_of_forall_lt hbehind]
      · have hone : (k : Int) ∉ [i] := by simpa using hk
        rw [without_cons [i], if_neg hone, without_cons, without_cons, ih]
        simp only [List.mem_cons, hk, false_or]

end

/-! ## Requests with one position and with several -/

variable {s t u : Sequent} {is js : List Int}

/-- **When hypotheses are removed, and what is left**: the positions must exist, and
there must be one. -/
theorem applyCall_weaken_eq_ok_iff {step : Step} :
    s.applyCall (Request.weaken is).call = .ok step ↔
      is ≠ [] ∧ (∀ i ∈ is, s.HasPosition i) ∧
        step = ⟨.weaken, [⟨without is 0 s.hyps, s.concl⟩]⟩ := by
  have hall : (is.all fun i => (s.hyp? i).isSome) = true ↔ ∀ i ∈ is, s.HasPosition i := by
    simp [isSome_hyp?_iff]
  rw [applyCall_call_eq_ok_iff, Sequent.step, weaken]
  by_cases hnil : is = []
  · simp [hnil]
  · by_cases hpos : ∀ i ∈ is, s.HasPosition i
    · simp only [List.isEmpty_iff, hnil, if_false, hall.mpr hpos, if_true, Except.ok.injEq]
      exact ⟨fun h => ⟨hnil, hpos, h.symm⟩, fun h => h.2.2.symm⟩
    · simp [hnil, hall, hpos]

/-- A position that does not exist spoils the whole request, whatever the others are. -/
theorem applyCall_weaken_outOfRange {i : Int} (hi : i ∈ is) (hout : ¬ s.HasPosition i) :
    s.applyCall (Request.weaken is).call =
      .error (.notApplicable ⟨.weaken is, .indexOutOfRange⟩) := by
  have hnil : is.isEmpty = false := by
    rw [List.isEmpty_eq_false_iff]
    exact List.ne_nil_of_mem hi
  have hall : (is.all fun i => (s.hyp? i).isSome) = false := by
    rw [List.all_eq_false]
    exact ⟨i, hi, by rwa [isSome_hyp?_iff]⟩
  rw [applyCall_eq_notApplicable_iff, Sequent.step, weaken, hnil, hall]
  exact ⟨rfl, rfl⟩

/-- `RemovesEach s is t`: removing the hypotheses at the positions `is` one at a
time and in this order, first from `s` and then from the premise that each step
leaves, leads to `t`. -/
inductive RemovesEach : Sequent → List Int → Sequent → Prop where
  | nil (s : Sequent) : RemovesEach s [] s
  | cons {s t u : Sequent} {i : Int} {is : List Int}
      (h : s.applyCall (Request.weaken [i]).call = .ok ⟨.weaken, [t]⟩)
      (hrest : RemovesEach t is u) : RemovesEach s (i :: is) u

theorem RemovesEach.unique (ht : RemovesEach s is t) (hu : RemovesEach s is u) : t = u := by
  induction ht with
  | nil s =>
      cases hu
      rfl
  | cons h _ ih =>
      cases hu with
      | cons h' hrest =>
          rw [h] at h'
          cases h'
          exact ih hrest

/-- Each step removes one hypothesis. -/
theorem RemovesEach.length_hyps (h : RemovesEach s is t) :
    t.hyps.length + is.length = s.hyps.length := by
  induction h with
  | nil s => rfl
  | @cons s t u i is h _ ih =>
      obtain ⟨-, hpos, hstep⟩ := applyCall_weaken_eq_ok_iff.mp h
      obtain ⟨hnonneg, hlt⟩ := hpos i List.mem_cons_self
      obtain ⟨n, rfl⟩ := Int.eq_ofNat_of_zero_le hnonneg
      have hn : n < s.hyps.length := by omega
      have ht : t.hyps = s.hyps.eraseIdx n := by
        have hone := without_singleton 0 n s.hyps
        rw [Nat.zero_add] at hone
        cases hstep
        exact hone
      rw [ht, List.length_eraseIdx_of_lt hn] at ih
      rw [List.length_cons]
      omega

/-- **Positions in descending order can be removed one at a time.**  Each position
that is left lies before the one that goes, so it still exists afterwards. -/
theorem removesEach_of_descending (hdesc : is.Pairwise (· > ·)) (hpos : ∀ i ∈ is, s.HasPosition i) :
    RemovesEach s is ⟨without is 0 s.hyps, s.concl⟩ := by
  induction is generalizing s with
  | nil =>
      rw [without_of_forall_lt (List.forall_mem_nil _)]
      exact .nil s
  | cons i is ih =>
      obtain ⟨hless, hrest⟩ := List.pairwise_cons.mp hdesc
      have hfirst : s.applyCall (Request.weaken [i]).call =
          .ok ⟨.weaken, [⟨without [i] 0 s.hyps, s.concl⟩]⟩ :=
        applyCall_weaken_eq_ok_iff.mpr
          ⟨List.cons_ne_nil i [], by simpa using hpos i List.mem_cons_self, rfl⟩
      have hlength := (RemovesEach.cons hfirst (.nil _)).length_hyps
      have hleft : ∀ j ∈ is, HasPosition ⟨without [i] 0 s.hyps, s.concl⟩ j := by
        intro j hj
        have hji : j < i := hless j hj
        have hi := hpos i List.mem_cons_self
        have hj' := hpos j (List.mem_cons_of_mem i hj)
        simp only [HasPosition, List.length_singleton] at hi hj' hlength ⊢
        omega
      have hmore := ih hrest hleft
      rw [without_without hless] at hmore
      exact .cons hfirst hmore

/-! ## All at once -/

/-- The distinct positions in a list, from the largest to the smallest. -/
def descending (is : List Int) : List Int := is.dedup.insertionSort (· ≥ ·)

theorem mem_descending {i : Int} : i ∈ descending is ↔ i ∈ is := by
  rw [descending, List.mem_insertionSort, List.mem_dedup]

theorem pairwise_descending (is : List Int) : (descending is).Pairwise (· > ·) := by
  have hnodup : (descending is).Nodup :=
    (List.perm_insertionSort _ _).nodup_iff.mpr is.nodup_dedup
  have hsorted : (descending is).Pairwise (· ≥ ·) := List.pairwise_insertionSort _ _
  refine (hsorted.and hnodup).imp fun h => ?_
  omega

/-- **Removing hypotheses at several positions at once is removing them one at a time.**
If the request fits it leaves one premise: the sequent that is left when the distinct
positions are removed by a request each, from the largest to the smallest.  The same
answer is given for any other list that names the same positions.  The premise has the
hypotheses at all other positions, in their order and each as often as it stood there,
so their number goes down by that of the distinct positions.  A single position that
does not exist makes the request fail. -/
theorem weaken_removes_each (s : Sequent) (is : List Int) :
    (∀ step, s.applyCall (Request.weaken is).call = .ok step →
      ∃ t, step = ⟨.weaken, [t]⟩ ∧
        (∀ u, RemovesEach s (descending is) u ↔ u = t) ∧
        (∀ js : List Int, (∀ i, i ∈ js ↔ i ∈ is) →
          s.applyCall (Request.weaken js).call = .ok ⟨.weaken, [t]⟩) ∧
        t.concl = s.concl ∧
        t.hyps = (s.hyps.zipIdx.filter fun p => (p.2 : Int) ∉ is).map Prod.fst ∧
        t.hyps.length + is.dedup.length = s.hyps.length) ∧
    ((∃ i ∈ is, ¬ s.HasPosition i) →
      s.applyCall (Request.weaken is).call =
        .error (.notApplicable ⟨.weaken is, .indexOutOfRange⟩)) := by
  refine ⟨fun step hstep => ?_, fun ⟨i, hi, hout⟩ => applyCall_weaken_outOfRange hi hout⟩
  obtain ⟨hne, hpos, rfl⟩ := applyCall_weaken_eq_ok_iff.mp hstep
  have heach : RemovesEach s (descending is) ⟨without is 0 s.hyps, s.concl⟩ := by
    have hdesc := removesEach_of_descending (pairwise_descending is)
      fun i hi => hpos i (mem_descending.mp hi)
    rwa [without_congr fun i => mem_descending] at hdesc
  refine ⟨⟨without is 0 s.hyps, s.concl⟩, rfl, ?_, ?_, rfl, without_eq_map_filter is 0 s.hyps, ?_⟩
  · intro u
    constructor
    · intro hu
      exact hu.unique heach
    · rintro rfl
      exact heach
  · intro js hjs
    refine applyCall_weaken_eq_ok_iff.mpr ⟨?_, fun i hi => hpos i ((hjs i).mp hi), ?_⟩
    · obtain ⟨i, hi⟩ := List.exists_mem_of_ne_nil is hne
      exact List.ne_nil_of_mem ((hjs i).mpr hi)
    · rw [without_congr hjs]
  · have hlength := heach.length_hyps
    rwa [descending, List.length_insertionSort] at hlength

/-- Of `A, B, A, B` the positions 2, 0 and 2 again leave `B, B`, as position 2 and then
position 0 do. -/
theorem weaken_removes_each_repeated :
    let A : Formula := .var ⟨⟨'A', rfl⟩, []⟩
    let B : Formula := .var ⟨⟨'B', rfl⟩, []⟩
    let s : Sequent := ⟨[A, B, A, B], A⟩
    s.applyCall (Request.weaken [2, 0, 2]).call = .ok ⟨.weaken, [⟨[B, B], A⟩]⟩ ∧
      RemovesEach s [2, 0] ⟨[B, B], A⟩ ∧
      s.applyCall (Request.weaken [0, 0, 2]).call = .ok ⟨.weaken, [⟨[B, B], A⟩]⟩ ∧
      s.applyCall (Request.weaken [0, 4, 2]).call =
        .error (.notApplicable ⟨.weaken [0, 4, 2], .indexOutOfRange⟩) := by
  intro A B s
  have hfits : s.applyCall (Request.weaken [2, 0, 2]).call = .ok ⟨.weaken, [⟨[B, B], A⟩]⟩ := rfl
  obtain ⟨t, hstep, heach, hset, -⟩ := (weaken_removes_each s [2, 0, 2]).1 _ hfits
  obtain rfl : ⟨[B, B], A⟩ = t := by
    cases hstep
    rfl
  have hsame : ∀ i : Int, i ∈ [0, 0, 2] ↔ i ∈ [2, 0, 2] := by
    intro i
    simp only [List.mem_cons, List.not_mem_nil, or_false]
    omega
  exact ⟨hfits, (heach _).mpr rfl, hset [0, 0, 2] hsame,
    (weaken_removes_each s [0, 4, 2]).2 ⟨4, by decide, by decide⟩⟩

end Sequent

end Sequitur
