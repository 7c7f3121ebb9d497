import Sequitur.Validity.Learner

/-!
# Sequitur.Validity.Solver

Values under which clauses hold together, if there are any.

A search that learns finds them or a refutation.  What it finds is checked,
and all values are tried in turn if it does not stand the check.  So clauses
hold with the values that are found (`satisfies_of_solve`), and do not hold
together if none are (`not_holds_of_solve`).

Other solvers may do as well.  All that is asked of a `Solver` is that it is exact:
the values it finds are right, and it finds some if there are any.
-/

namespace Sequitur

namespace Values

/-- The value of a variable. -/
def value (vs : Values) (n : Nat) : Bool := vs.getD n false

/-- Whether clauses hold together. -/
def satisfies (vs : Values) (cs : List Clause) : Bool := cs.all (Clause.holds vs.value)

/-- Tries all values for `n` variables more. -/
def tryAll (cs : List Clause) : Nat → Values → Option Values
  | 0, vs => if vs.satisfies cs then some vs else none
  | n + 1, vs =>
    match tryAll cs n (vs.push true) with
    | some ws => some ws
    | none => tryAll cs n (vs.push false)

/-- Tries all values in turn. -/
def exhaust (cs : List Clause) : Option Values := tryAll cs (Learner.greatest cs + 1) #[]

end Values

/-- Values under which clauses hold together, if there are any. -/
def solve (cs : List Clause) : Option Values :=
  match Learner.run cs with
  | .values vs => if vs.satisfies cs then some vs else Values.exhaust cs
  | .refutation ds => if Refutation.refutes cs.toArray ds then none else Values.exhaust cs
  | .nothing => Values.exhaust cs

/-! ## The answer is right -/

/-- Whether a clause holds depends on the values of its variables only. -/
theorem Clause.holds_congr {v w : Nat → Bool} {c : Clause}
    (h : ∀ l ∈ c, v l.natAbs = w l.natAbs) : Clause.holds v c = Clause.holds w c := by
  induction c with
  | nil => rfl
  | cons l ls ih =>
    have tail := ih fun k hk => h k (List.mem_cons_of_mem l hk)
    simp only [Clause.holds, List.any_cons] at tail ⊢
    rw [tail, Literal.holds, Literal.holds, h l List.mem_cons_self]

namespace Learner

/-- The greatest number of a clause and a number before it. -/
theorem le_foldl_max (c : Clause) : ∀ n : Nat,
    n ≤ c.foldl (fun n l => max n l.natAbs) n ∧
      ∀ l ∈ c, l.natAbs ≤ c.foldl (fun n l => max n l.natAbs) n := by
  induction c with
  | nil => intro n; exact ⟨Nat.le_refl n, fun l hl => by simp at hl⟩
  | cons k ks ih =>
    intro n
    obtain ⟨hn, hks⟩ := ih (max n k.natAbs)
    refine ⟨Nat.le_trans (Nat.le_max_left ..) hn, fun l hl => ?_⟩
    rcases List.mem_cons.1 hl with rfl | hl
    · exact Nat.le_trans (Nat.le_max_right ..) hn
    · exact hks l hl

/-- No variable of some clauses has a number above the greatest. -/
theorem natAbs_le_greatest {cs : List Clause} {c : Clause} (hc : c ∈ cs) {l : Literal}
    (hl : l ∈ c) : l.natAbs ≤ greatest cs := by
  have all : ∀ (cs : List Clause) (n : Nat),
      n ≤ cs.foldl (fun n c => c.foldl (fun n l => max n l.natAbs) n) n ∧
        ∀ c ∈ cs, ∀ l ∈ c,
          l.natAbs ≤ cs.foldl (fun n c => c.foldl (fun n l => max n l.natAbs) n) n := by
    intro cs
    induction cs with
    | nil => intro n; exact ⟨Nat.le_refl n, fun c hc => by simp at hc⟩
    | cons d ds ih =>
      intro n
      obtain ⟨hn, hd⟩ := le_foldl_max d n
      obtain ⟨hm, hds⟩ := ih (d.foldl (fun n l => max n l.natAbs) n)
      refine ⟨Nat.le_trans hn hm, fun c hc l hl => ?_⟩
      rcases List.mem_cons.1 hc with rfl | hc
      · exact Nat.le_trans (hd l hl) hm
      · exact hds c hc l hl
  exact (all cs 0).2 c hc l hl

end Learner

namespace Values

/-- What is found by trying holds. -/
theorem satisfies_of_tryAll {cs : List Clause} {ws : Values} : ∀ {n : Nat} {vs : Values},
    tryAll cs n vs = some ws → ws.satisfies cs = true := by
  intro n
  induction n with
  | zero =>
    intro vs h
    simp only [tryAll] at h
    split at h
    · rename_i hs
      rw [← Option.some.inj h]
      exact hs
    · simp at h
  | succ n ih =>
    intro vs h
    simp only [tryAll] at h
    split at h
    · rename_i hs
      exact ih (hs.trans h)
    · exact ih h

/-- If trying finds nothing, then clauses with so many variables do not hold
with any values that extend the ones at hand. -/
theorem not_holds_of_tryAll {cs : List Clause} {v : Nat → Bool} : ∀ {n : Nat} {vs : Values},
    (∀ c ∈ cs, ∀ l ∈ c, l.natAbs < vs.size + n) → (∀ i < vs.size, vs.value i = v i) →
      tryAll cs n vs = none → ¬ ∀ c ∈ cs, Clause.holds v c = true := by
  intro n
  induction n with
  | zero =>
    intro vs hcs hv h all
    simp only [tryAll] at h
    split at h
    · simp at h
    · rename_i hs
      refine hs (List.all_eq_true.2 fun c hc => ?_)
      rw [Clause.holds_congr fun l hl => hv _ (hcs c hc l hl)]
      exact all c hc
  | succ n ih =>
    intro vs hcs hv h
    have extend : ∀ b, v vs.size = b → ∀ i < (vs.push b).size, value (vs.push b) i = v i := by
      intro b hb i hi
      rw [Array.size_push] at hi
      by_cases e : i = vs.size
      · rw [e, hb]; simp [value]
      · rw [← hv i (by omega)]
        simp [value, Array.getElem?_push, e]
    have size : ∀ b c, c ∈ cs → ∀ l ∈ c, l.natAbs < (vs.push b).size + n := by
      intro b c hc l hl
      have := hcs c hc l hl
      rw [Array.size_push]
      omega
    simp only [tryAll] at h
    split at h
    · simp at h
    · rename_i ht
      cases hb : v vs.size with
      | true => exact ih (size true) (extend true hb) ht
      | false => exact ih (size false) (extend false hb) h

end Values

/-- Clauses hold with the values that are found. -/
theorem satisfies_of_solve {cs : List Clause} {vs : Values} (h : solve cs = some vs) :
    vs.satisfies cs = true := by
  simp only [solve] at h
  split at h <;> try split at h
  · rename_i hs
    rw [← Option.some.inj h]
    exact hs
  · exact Values.satisfies_of_tryAll h
  · simp at h
  · exact Values.satisfies_of_tryAll h
  · exact Values.satisfies_of_tryAll h

/-- If no values are found, then the clauses do not hold together. -/
theorem not_holds_of_solve {cs : List Clause} (h : solve cs = none) (v : Nat → Bool) :
    ¬ ∀ c ∈ cs, Clause.holds v c = true := by
  have exhausted : Values.exhaust cs = none → ¬ ∀ c ∈ cs, Clause.holds v c = true := by
    intro h
    refine Values.not_holds_of_tryAll (fun c hc l hl => ?_) (fun i hi => by simp at hi) h
    have := Learner.natAbs_le_greatest hc hl
    simp only [List.size_toArray, List.length_nil]
    omega
  simp only [solve] at h
  split at h <;> try split at h
  · simp at h
  · exact exhausted h
  · rename_i hr
    intro all
    rw [Refutation.refutes_false _ fun c hc => all c (List.mem_toArray.1 hc)] at hr
    simp at hr
  · exact exhausted h
  · exact exhausted h

/-! ## Solvers -/

/-- Finds values under which clauses hold together.  The values are right, and they are
found if there are any, as long as zero, which is the number of no variable, is not
among the literals. -/
structure Solver where
  find : List Clause → Option Values
  holds_of_find : ∀ {cs : List Clause} {vs : Values}, (∀ c ∈ cs, (0 : Literal) ∉ c) →
    find cs = some vs → ∀ c ∈ cs, Clause.holds vs.value c = true
  isSome_find : ∀ {cs : List Clause} {v : Nat → Bool}, (∀ c ∈ cs, (0 : Literal) ∉ c) →
    (∀ c ∈ cs, Clause.holds v c = true) → (find cs).isSome = true

/-- The solver that learns. -/
def Solver.learning : Solver where
  find := solve
  holds_of_find := fun _ h => List.all_eq_true.mp (satisfies_of_solve h)
  isSome_find := by
    intro cs v _ hv
    rw [Option.isSome_iff_ne_none]
    intro hnone
    exact not_holds_of_solve hnone v hv

end Sequitur
