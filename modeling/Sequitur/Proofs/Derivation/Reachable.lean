import Sequitur.Derivation.Basic

/-!
# Sequitur.Proofs.Derivation.Reachable

What a user can make of a derivation.  An action applies a call at a path
or at the first goal; an action that fails leaves the derivation as it was.
A run is a list of actions, one after the other.

Whatever the action, there is one thing it can do: put a rule, with goals
for its premises, where a goal was (`attempt_eq_ok`).  Everything that holds
of all runs is derived from this (`run_induction`), first of all that the
derivation stays well formed (`wellFormed_run`):

* a node's rule and premises come from a request that fits its sequent;
* the sequent at the root never changes.
-/

namespace Sequitur

/-! ## Positions -/

theorem nth?_eq_some_iff {α : Type} {xs : List α} {i : Int} {x : α} :
    nth? xs i = some x ↔ ∃ n : Nat, i = n ∧ xs[n]? = some x := by
  cases i with
  | ofNat n =>
      constructor
      · intro h
        exact ⟨n, rfl, h⟩
      · rintro ⟨m, hm, hx⟩
        obtain rfl : n = m := Int.ofNat.inj hm
        exact hx
  | negSucc n =>
      simp only [nth?, reduceCtorEq, false_iff, not_exists, not_and]
      intro m hm
      cases hm

@[simp] theorem nth?_natCast {α : Type} (xs : List α) (n : Nat) : nth? xs (n : Int) = xs[n]? := rfl

/-- A request that fits gives the same step with and without a reported error. -/
theorem Sequent.apply_eq_ok_iff {s : Sequent} {r : Request} {step : Step} :
    s.apply r = .ok step ↔ s.step r = .ok step := by
  rw [Sequent.apply]
  cases s.step r with
  | error reason => simp
  | ok step' => simp

/-- A request, as a call, is the request. -/
theorem Request.check_call (r : Request) : r.call.check = .ok r := by
  cases r <;> rfl

/-- Calling a request that fits gives the step of the request. -/
theorem Sequent.applyCall_call_eq_ok_iff {s : Sequent} {r : Request} {step : Step} :
    s.applyCall r.call = .ok step ↔ s.step r = .ok step := by
  rw [Sequent.applyCall, Request.check_call, ← Sequent.apply_eq_ok_iff]
  cases happly : s.apply r with
  | error e => simp [happly]
  | ok step' => simp [happly]

namespace Derivation

/-- Induction over derivations: the premises of a node are smaller. -/
@[elab_as_elim]
theorem inductOn {motive : Derivation → Prop} (d : Derivation)
    (goal : ∀ s, motive (.goal s))
    (node : ∀ s k ds, (∀ d ∈ ds, motive d) → motive (.node s k ds)) : motive d := by
  refine @Derivation.rec Name motive (fun ds => ∀ d ∈ ds, motive d) goal node ?nil ?cons d
  case nil =>
      intro d hd
      exact absurd hd List.not_mem_nil
  case cons =>
      intro d ds ihd ihds e he
      rcases List.mem_cons.mp he with rfl | he
      · exact ihd
      · exact ihds e he

/-! ## Paths -/

@[simp] theorem at?_nil (d : Derivation) : d.at? [] = some d := rfl

theorem at?_cons (d : Derivation) (i : Int) (path : Path) :
    d.at? (i :: path) = (nth? d.premises i).bind (·.at? path) := by
  rw [at?]
  cases nth? d.premises i <;> rfl

/-- A path that goes on goes on from the node it has reached. -/
theorem at?_append (d : Derivation) (path more : Path) :
    d.at? (path ++ more) = (d.at? path).bind (·.at? more) := by
  induction path generalizing d with
  | nil => rfl
  | cons i path ih =>
      rw [List.cons_append, at?_cons, at?_cons]
      cases nth? d.premises i with
      | none => rfl
      | some premise => exact ih premise

/-- A premise's node is reached through the premise's position. -/
theorem at?_cons_of_premise {s : Sequent} {k : Rule} {ds : List Derivation} {n : Nat}
    {d : Derivation} (h : ds[n]? = some d) (path : Path) :
    (node s k ds).at? ((n : Int) :: path) = d.at? path := by
  rw [at?_cons, premises, nth?_natCast, h, Option.bind_some]

/-- Below a premise there is what the whole has below that premise. -/
theorem exists_at?_of_mem {s : Sequent} {k : Rule} {ds : List Derivation} {d : Derivation}
    (h : d ∈ ds) : ∃ i : Int, ∀ path, (node s k ds).at? (i :: path) = d.at? path := by
  obtain ⟨n, hn⟩ := List.getElem?_of_mem h
  exact ⟨n, at?_cons_of_premise hn⟩

/-! ## Replacing a node -/

theorem replace_cons {s : Sequent} {k : Rule} {ds : List Derivation} {n : Nat} {d : Derivation}
    (h : ds[n]? = some d) (new : Derivation) (path : Path) :
    (node s k ds).replace new ((n : Int) :: path) = node s k (ds.set n (d.replace new path)) := by
  rw [replace, nth?_natCast, h]
  rfl

/-- The only way for a path with a first step to reach a node: the root is
no goal, and the rest of the path reaches the node from a premise. -/
theorem at?_cons_eq_some {d n : Derivation} {i : Int} {path : Path}
    (h : d.at? (i :: path) = some n) :
    ∃ s k ds m premise, d = node s k ds ∧ i = (m : Nat) ∧ ds[m]? = some premise ∧
      premise.at? path = some n := by
  rw [at?_cons, Option.bind_eq_some_iff] at h
  obtain ⟨premise, hpremise, hn⟩ := h
  obtain ⟨m, hi, hm⟩ := nth?_eq_some_iff.mp hpremise
  cases d with
  | goal s => simp [premises] at hm
  | node s k ds => exact ⟨s, k, ds, m, premise, rfl, hi, hm, hn⟩

/-- The root keeps its sequent if the node put in has the sequent of the one
taken out. -/
theorem sequent_replace {d old new : Derivation} {path : Path} (h : d.at? path = some old)
    (hnew : new.sequent = old.sequent) : (d.replace new path).sequent = d.sequent := by
  cases path with
  | nil =>
      obtain rfl : d = old := Option.some.inj h
      rw [replace, hnew]
  | cons i path =>
      obtain ⟨s, k, ds, m, premise, rfl, rfl, hm, -⟩ := at?_cons_eq_some h
      rw [replace_cons hm, sequent, sequent]

/-- A premise can be exchanged for another with the same sequent. -/
theorem map_sequent_set {ds : List Derivation} {m : Nat} {d d' : Derivation}
    (hm : ds[m]? = some d) (h : d'.sequent = d.sequent) :
    (ds.set m d').map sequent = ds.map sequent := by
  rw [List.map_set, h]
  obtain ⟨hlt, rfl⟩ := List.getElem?_eq_some_iff.mp hm
  rw [← List.getElem_map sequent (h := by simpa using hlt), List.set_getElem_self]

/-! ## Actions and runs -/

/-- Something a user does to a derivation. -/
inductive Action where
  /-- Applies a call to the goal at a path. -/
  | applyAt (path : Path) (call : Call)
  /-- Applies a call to the first goal. -/
  | proveNext (call : Call)

/-- What an action gives. -/
def attempt (d : Derivation) : Action → Except DerivationError Derivation
  | .applyAt path call => d.applyCallAt path call
  | .proveNext call => d.proveNextCall call

/-- The derivation after an action.  It is the old one if the action fails. -/
def after (d : Derivation) (a : Action) : Derivation :=
  match d.attempt a with
  | .ok d' => d'
  | .error _ => d

/-- The derivation after a list of actions. -/
def run (d : Derivation) (as : List Action) : Derivation := as.foldl after d

theorem applyAt_eq_ok_iff {d d' : Derivation} {path : Path} {r : Request} :
    d.applyAt path r = .ok d' ↔
      ∃ s step, d.at? path = some (goal s) ∧ s.step r = .ok step ∧
        d.replace (ofStep s step) path = d' := by
  constructor
  · intro h
    rw [applyAt] at h
    split at h
    · contradiction
    · contradiction
    · next s hat =>
        cases happly : s.apply r with
        | error e => simp only [happly] at h; contradiction
        | ok step =>
            simp only [happly, Except.ok.injEq] at h
            exact ⟨s, step, hat, Sequent.apply_eq_ok_iff.mp happly, h⟩
  · rintro ⟨s, step, hat, hstep, rfl⟩
    rw [applyAt, hat]
    simp only [Sequent.apply_eq_ok_iff.mpr hstep]

theorem applyCallAt_eq_ok {d d' : Derivation} {path : Path} {call : Call}
    (h : d.applyCallAt path call = .ok d') : ∃ r, d.applyAt path r = .ok d' := by
  rw [applyCallAt] at h
  split at h
  · contradiction
  · exact ⟨_, h⟩
  · contradiction
  · contradiction

/-- What an action can do: where a goal was there is now a rule that a
request gave, its premises being goals. -/
theorem attempt_eq_ok {d d' : Derivation} {a : Action} (h : d.attempt a = .ok d') :
    ∃ path s r step, d.at? path = some (goal s) ∧ s.step r = .ok step ∧
      d.replace (ofStep s step) path = d' := by
  cases a with
  | applyAt path call =>
      obtain ⟨r, hr⟩ := applyCallAt_eq_ok h
      obtain ⟨s, step, hs⟩ := applyAt_eq_ok_iff.mp hr
      exact ⟨path, s, r, step, hs⟩
  | proveNext call =>
      rw [attempt, proveNextCall] at h
      cases hnext : d.nextGoal? with
      | none => simp only [hnext] at h; contradiction
      | some path =>
          simp only [hnext] at h
          obtain ⟨r, hr⟩ := applyCallAt_eq_ok h
          obtain ⟨s, step, hs⟩ := applyAt_eq_ok_iff.mp hr
          exact ⟨path, s, r, step, hs⟩

/-- What holds at first and is kept whenever a goal gets a rule holds after
every run. -/
theorem run_induction {P : Derivation → Prop} {d : Derivation} (as : List Action) (h : P d)
    (hstep : ∀ d path s r step, P d → d.at? path = some (goal s) → s.step r = .ok step →
      P (d.replace (ofStep s step) path)) : P (d.run as) := by
  induction as generalizing d with
  | nil => exact h
  | cons a as ih =>
      apply ih
      rw [after]
      split
      · next d' hok =>
          obtain ⟨path, s, r, step, hat, hs, rfl⟩ := attempt_eq_ok hok
          exact hstep d path s r step h hat hs
      · exact h

/-! ## Well-formed derivations -/

/-- Every rule comes from a request that fits the sequent it is applied to,
and the premises are those the request leaves, in order. -/
inductive WellFormed : Derivation → Prop where
  | goal (s : Sequent) : WellFormed (.goal s)
  | node (s : Sequent) (r : Request) (k : Rule) (ds : List Derivation)
      (hstep : s.step r = .ok ⟨k, ds.map sequent⟩) (hds : ∀ d ∈ ds, WellFormed d) :
      WellFormed (.node s k ds)

theorem wellFormed_ofStep {s : Sequent} {r : Request} {step : Step} (h : s.step r = .ok step) :
    WellFormed (ofStep s step) := by
  refine .node s r step.rule _ ?_ ?_
  · have hmap : (step.premises.map goal).map sequent = step.premises := by
      rw [List.map_map]
      exact List.map_id _
    rw [hmap, h]
  · intro d hd
    obtain ⟨p, -, rfl⟩ := List.mem_map.mp hd
    exact .goal p

theorem WellFormed.replace {d old new : Derivation} {path : Path} (hd : WellFormed d)
    (hat : d.at? path = some old) (hseq : new.sequent = old.sequent) (hnew : WellFormed new) :
    WellFormed (d.replace new path) := by
  induction path generalizing d with
  | nil => exact hnew
  | cons i path ih =>
      obtain ⟨s, k, ds, m, premise, rfl, rfl, hm, hold⟩ := at?_cons_eq_some hat
      cases hd with
      | node _ r _ _ hstep hds =>
          rw [replace_cons hm]
          have hpremise : premise ∈ ds := List.mem_of_getElem? hm
          -- the request still fits: no premise has changed its sequent
          have hsame : (ds.set m (premise.replace new path)).map sequent = ds.map sequent :=
            map_sequent_set hm (sequent_replace hold hseq)
          refine .node s r k _ ?_ ?_
          · rw [hsame, hstep]
          · intro e he
            rcases List.mem_or_eq_of_mem_set he with he | rfl
            · exact hds e he
            · exact ih (hds premise hpremise) hold

theorem WellFormed.of_at? {d n : Derivation} {path : Path} (hd : WellFormed d)
    (hat : d.at? path = some n) : WellFormed n := by
  induction path generalizing d with
  | nil =>
      obtain rfl : d = n := Option.some.inj hat
      exact hd
  | cons i path ih =>
      obtain ⟨s, k, ds, m, premise, rfl, rfl, hm, hn⟩ := at?_cons_eq_some hat
      cases hd with
      | node _ r _ _ _ hds => exact ih (hds premise (List.mem_of_getElem? hm)) hn

/-- **Runs keep derivations well formed.** -/
theorem wellFormed_run {d : Derivation} (hd : WellFormed d) (as : List Action) :
    WellFormed (d.run as) := by
  apply run_induction as hd
  intro d path s r step hd hat hstep
  exact hd.replace hat rfl (wellFormed_ofStep hstep)

/-- **Runs keep the sequent at the root.** -/
theorem sequent_run (d : Derivation) (as : List Action) : (d.run as).sequent = d.sequent := by
  apply run_induction (P := fun e => e.sequent = d.sequent) as rfl
  intro e path s r step he hat hstep
  have hnew : (ofStep s step).sequent = (goal s).sequent := rfl
  rw [sequent_replace hat hnew, he]

/-! ## Complete derivations -/

theorem nextGoalAmong?_eq_none_iff {i : Nat} {ds : List Derivation} :
    nextGoalAmong? i ds = none ↔ ∀ d ∈ ds, d.nextGoal? = none := by
  induction ds generalizing i with
  | nil => simp [nextGoalAmong?]
  | cons d ds ih =>
      rw [nextGoalAmong?, List.forall_mem_cons]
      cases d.nextGoal? with
      | none => simp [ih]
      | some path => simp

/-- The first goal among premises is the first goal of the leftmost premise
that has one. -/
theorem nextGoalAmong?_append {i : Nat} {done rest : List Derivation} {d : Derivation}
    {path : Path} (hdone : ∀ e ∈ done, e.nextGoal? = none) (hd : d.nextGoal? = some path) :
    nextGoalAmong? i (done ++ d :: rest) = some (((i + done.length : Nat) : Int) :: path) := by
  induction done generalizing i with
  | nil => simp [nextGoalAmong?, hd]
  | cons e done ih =>
      obtain ⟨he, hrest⟩ := List.forall_mem_cons.mp hdone
      rw [List.cons_append, nextGoalAmong?, he]
      simp only [ih hrest, List.length_cons]
      rw [Nat.add_assoc, Nat.add_comm 1]

/-- The first goal among premises is the first goal of one of them. -/
theorem nextGoalAmong?_eq_some {i : Nat} {ds : List Derivation} {path : Path}
    (h : nextGoalAmong? i ds = some path) :
    ∃ n d rest, ds[n]? = some d ∧ d.nextGoal? = some rest ∧ path = ((i + n : Nat) : Int) :: rest := by
  induction ds generalizing i with
  | nil => contradiction
  | cons d ds ih =>
      rw [nextGoalAmong?] at h
      cases hd : d.nextGoal? with
      | some rest =>
          simp only [hd, Option.some.injEq] at h
          exact ⟨0, d, rest, rfl, hd, h.symm⟩
      | none =>
          simp only [hd] at h
          obtain ⟨n, e, rest, hn, he, rfl⟩ := ih h
          refine ⟨n + 1, e, rest, hn, he, ?_⟩
          rw [Nat.add_assoc, Nat.add_comm 1]

/-- The path of the first goal leads to a goal. -/
theorem exists_goal_of_nextGoal? {d : Derivation} {path : Path} (h : d.nextGoal? = some path) :
    ∃ s, d.at? path = some (goal s) := by
  induction d using inductOn generalizing path with
  | goal s =>
      obtain rfl : [] = path := Option.some.inj h
      exact ⟨s, rfl⟩
  | node s k ds ih =>
      rw [nextGoal?] at h
      obtain ⟨n, d, rest, hn, hd, rfl⟩ := nextGoalAmong?_eq_some h
      rw [Nat.zero_add, at?_cons_of_premise hn]
      exact ih d (List.mem_of_getElem? hn) hd

/-- A derivation is complete if and only if no path leads to a goal. -/
theorem nextGoal?_eq_none_iff {d : Derivation} :
    d.nextGoal? = none ↔ ∀ path s, d.at? path ≠ some (goal s) := by
  induction d using inductOn with
  | goal s =>
      simp only [nextGoal?, reduceCtorEq, false_iff]
      intro h
      exact h [] s rfl
  | node s k ds ih =>
      rw [nextGoal?, nextGoalAmong?_eq_none_iff]
      constructor
      · intro h path g hat
        cases path with
        | nil => simp at hat
        | cons i path =>
            obtain ⟨_, _, _, m, premise, heq, rfl, hm, hg⟩ := at?_cons_eq_some hat
            cases heq
            have hmem := List.mem_of_getElem? hm
            exact (ih premise hmem).mp (h premise hmem) path g hg
      · intro h d hd
        obtain ⟨i, hi⟩ := exists_at?_of_mem (s := s) (k := k) hd
        apply (ih d hd).mpr
        intro path g hat
        exact h (i :: path) g ((hi path).trans hat)

theorem isComplete_iff {d : Derivation} :
    d.isComplete = true ↔ ∀ path s, d.at? path ≠ some (goal s) := by
  rw [isComplete, Option.isNone_iff_eq_none, nextGoal?_eq_none_iff]

end Derivation

end Sequitur
