import Sequitur.Proofs.Derivation.Reachable

/-!
# Sequitur.Proofs.Derivation.Script

Scripts: lists of requests, each applied to the first goal there is when
its turn comes.  A script for a derivation starts from the bare goal and
ends with that derivation, complete.

The first goal of a node is that of the leftmost premise with one, so a
request for the premise is a request for the node (`proveNext_premise`).
Hence scripts for the premises, one after the other and behind the request
for the rule itself, are a script for the node (`Script.node`).
-/

namespace Sequitur

namespace Derivation

/-- `rs` builds the complete derivation `d` from the goal at its root. -/
structure Script (rs : List Request) (d : Derivation) : Prop where
  builds : rs.foldlM proveNext (goal d.sequent) = .ok d
  complete : d.isComplete = true

/-- Some script proves the sequent. -/
def Scriptable (s : Sequent) : Prop := ∃ rs d, Script rs d ∧ d.sequent = s

/-! ## One request -/

theorem proveNext_eq_ok {d d' : Derivation} {r : Request} (h : d.proveNext r = .ok d') :
    ∃ path s step, d.nextGoal? = some path ∧ d.at? path = some (goal s) ∧
      s.step r = .ok step ∧ d.replace (ofStep s step) path = d' := by
  rw [proveNext] at h
  cases hnext : d.nextGoal? with
  | none => simp only [hnext] at h; contradiction
  | some path =>
      simp only [hnext] at h
      obtain ⟨s, step, hs⟩ := applyAt_eq_ok_iff.mp h
      exact ⟨path, s, step, rfl, hs⟩

theorem proveNext_goal {s : Sequent} {r : Request} {step : Step} (h : s.step r = .ok step) :
    (goal s).proveNext r = .ok (ofStep s step) := by
  rw [proveNext, nextGoal?]
  exact applyAt_eq_ok_iff.mpr ⟨s, step, rfl, h, rfl⟩

/-- With the premises before it complete, a premise gets the request for the
whole node. -/
theorem proveNext_premise {s : Sequent} {k : Rule} {done rest : List Derivation}
    {d d' : Derivation} {r : Request} (hdone : ∀ e ∈ done, e.isComplete = true)
    (h : d.proveNext r = .ok d') :
    (node s k (done ++ d :: rest)).proveNext r = .ok (node s k (done ++ d' :: rest)) := by
  obtain ⟨path, g, step, hnext, hat, hstep, rfl⟩ := proveNext_eq_ok h
  have hfirst : (node s k (done ++ d :: rest)).nextGoal? = some ((done.length : Int) :: path) := by
    rw [nextGoal?, nextGoalAmong?_append _ hnext, Nat.zero_add]
    intro e he
    exact Option.isNone_iff_eq_none.mp (hdone e he)
  have hpremise : (done ++ d :: rest)[done.length]? = some d := by simp
  rw [proveNext, hfirst]
  refine applyAt_eq_ok_iff.mpr ⟨g, step, ?_, hstep, ?_⟩
  · rw [at?_cons_of_premise hpremise, hat]
  · rw [replace_cons hpremise, List.set_append_right _ _ (Nat.le_refl _), Nat.sub_self,
      List.set_cons_zero]

/-! ## Many requests -/

theorem foldlM_premise {s : Sequent} {k : Rule} {done rest : List Derivation} {d d' : Derivation}
    {rs : List Request} (hdone : ∀ e ∈ done, e.isComplete = true)
    (h : rs.foldlM proveNext d = .ok d') :
    rs.foldlM proveNext (node s k (done ++ d :: rest)) = .ok (node s k (done ++ d' :: rest)) := by
  induction rs generalizing d with
  | nil =>
      obtain rfl : d = d' := Except.ok.inj h
      rfl
  | cons r rs ih =>
      rw [List.foldlM_cons] at h ⊢
      cases hr : d.proveNext r with
      | error e => rw [hr] at h; contradiction
      | ok d₁ =>
          rw [hr] at h
          rw [proveNext_premise hdone hr]
          exact ih h

/-- Scripts for the premises, in order, complete a node all of whose premises
are goals.  `done` are the premises that are complete already. -/
theorem foldlM_premises {s : Sequent} {k : Rule} {done : List Derivation}
    {scripts : List (List Request × Derivation)} (hdone : ∀ e ∈ done, e.isComplete = true)
    (h : ∀ p ∈ scripts, Script p.1 p.2) :
    (scripts.flatMap (·.1)).foldlM proveNext
        (node s k (done ++ scripts.map fun p => goal p.2.sequent)) =
      .ok (node s k (done ++ scripts.map (·.2))) := by
  induction scripts generalizing done with
  | nil => rfl
  | cons p scripts ih =>
      obtain ⟨hp, hscripts⟩ := List.forall_mem_cons.mp h
      have hdone' : ∀ e ∈ done ++ [p.2], e.isComplete = true := by
        simpa [or_imp, forall_and, hp.complete] using hdone
      have hrest := ih hdone' hscripts
      simp only [List.append_assoc, List.singleton_append] at hrest
      rw [List.flatMap_cons, List.foldlM_append, List.map_cons, List.map_cons,
        foldlM_premise hdone hp.builds]
      exact hrest

theorem isComplete_node {s : Sequent} {k : Rule} {ds : List Derivation}
    (h : ∀ d ∈ ds, d.isComplete = true) : (node s k ds).isComplete = true := by
  rw [isComplete, nextGoal?, Option.isNone_iff_eq_none, nextGoalAmong?_eq_none_iff]
  intro d hd
  exact Option.isNone_iff_eq_none.mp (h d hd)

/-- **Scripts compose**: a request for the rule at the root, then the scripts
for the premises from left to right. -/
theorem Script.node {s : Sequent} {k : Rule} {r : Request}
    {scripts : List (List Request × Derivation)} (h : ∀ p ∈ scripts, Script p.1 p.2)
    (hstep : s.step r = .ok ⟨k, scripts.map (·.2.sequent)⟩) :
    Script (r :: scripts.flatMap (·.1)) (.node s k (scripts.map (·.2))) := by
  constructor
  · rw [List.foldlM_cons, sequent, proveNext_goal hstep, ofStep, List.map_map]
    exact @foldlM_premises s k [] scripts (by simp) h
  · apply isComplete_node
    intro d hd
    obtain ⟨p, hp, rfl⟩ := List.mem_map.mp hd
    exact (h p hp).complete

/-- A sequent with a fitting request can be proved by a script if its
premises can. -/
theorem scriptable_of_step {s : Sequent} {r : Request} {step : Step} (hstep : s.step r = .ok step)
    (h : ∀ p ∈ step.premises, Scriptable p) : Scriptable s := by
  obtain ⟨k, premises⟩ := step
  have hscripts : ∃ scripts : List (List Request × Derivation),
      (∀ p ∈ scripts, Script p.1 p.2) ∧ scripts.map (·.2.sequent) = premises := by
    clear hstep
    induction premises with
    | nil => exact ⟨[], by simp, rfl⟩
    | cons p premises ih =>
        obtain ⟨⟨rs, d, hd, rfl⟩, hpremises⟩ := List.forall_mem_cons.mp h
        obtain ⟨scripts, hall, rfl⟩ := ih hpremises
        exact ⟨(rs, d) :: scripts, List.forall_mem_cons.mpr ⟨hd, hall⟩, rfl⟩
  obtain ⟨scripts, hall, rfl⟩ := hscripts
  exact ⟨_, _, Script.node hall hstep, rfl⟩

end Derivation

end Sequitur
