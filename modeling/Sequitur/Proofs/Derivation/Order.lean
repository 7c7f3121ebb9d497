import Mathlib.Tactic.Choose
import Sequitur.Proofs.Derivation.Count

/-!
# Sequitur.Proofs.Derivation.Order

The order in which goals are proved does not matter.  A run may apply rules at
any goals in any order; a script always takes the first goal.  Yet whatever
complete derivation a run leads to, a script builds the very same one, with
one request for each of its nodes.

What a run leaves behind is a well-formed derivation, in which the order of the
run can no longer be seen.  So the script is found from the tree alone
(`WellFormed.exists_script`): the request for the root, then the scripts of
the premises from left to right.
-/

namespace Sequitur

namespace Derivation

/-- The premises of a complete node are complete. -/
theorem isComplete_of_mem {s : Sequent} {k : Rule} {ds : List Derivation}
    (h : (node s k ds).isComplete = true) : ∀ d ∈ ds, d.isComplete = true := by
  rw [isComplete, nextGoal?, Option.isNone_iff_eq_none, nextGoalAmong?_eq_none_iff] at h
  intro d hd
  exact Option.isNone_iff_eq_none.mpr (h d hd)

/-- A complete derivation in which every rule comes from a request is built by
a script with as many requests as the derivation has nodes. -/
theorem WellFormed.exists_script {d : Derivation} (hd : WellFormed d)
    (hcomplete : d.isComplete = true) : ∃ rs, Script rs d ∧ rs.length = d.stats.nodes := by
  induction d using inductOn with
  | goal s => contradiction
  | node s k ds ih =>
      cases hd with
      | node _ r _ _ hstep hds =>
          have hpremises := isComplete_of_mem hcomplete
          have hscripts : ∀ d ∈ ds, ∃ rs, Script rs d ∧ rs.length = d.stats.nodes :=
            fun d hd => ih d hd (hds d hd) (hpremises d hd)
          choose! script hscript hlength using hscripts
          -- each premise with its script, from left to right
          let scripts := ds.map fun d => (script d, d)
          have hsnd : scripts.map (·.2) = ds := by
            rw [List.map_map]
            exact List.map_id ds
          have hall : ∀ p ∈ scripts, Script p.1 p.2 := by simpa [scripts] using hscript
          have hsequents : scripts.map (·.2.sequent) = ds.map sequent := by simp [scripts]
          refine ⟨r :: scripts.flatMap (·.1), ?_, ?_⟩
          · have hnode := Script.node (k := k) hall (hsequents ▸ hstep)
            rwa [hsnd] at hnode
          · have hsum : (scripts.map fun p => p.1.length).sum =
                (ds.map fun d => d.stats.nodes).sum := by
              rw [List.map_map]
              exact congrArg List.sum (List.map_congr_left hlength)
            rw [List.length_cons, List.length_flatMap, hsum, stats_nodes_node, Nat.add_comm]

/-- **The order in which goals are proved does not matter.**  Every complete
derivation that a run leads to, rules being applied at any goals in any order,
is built by a list of requests, one for each node, all of which succeed when
they are applied to the first goal in turn. -/
theorem exists_script_of_run (s : Sequent) (as : List Action)
    (h : ((goal s).run as).isComplete = true) :
    ∃ rs : List Request, rs.length = ((goal s).run as).stats.nodes ∧
      rs.foldlM proveNext (goal s) = .ok ((goal s).run as) := by
  obtain ⟨rs, hscript, hlength⟩ := (wellFormed_run (.goal s) as).exists_script h
  have hbuilds := hscript.builds
  rw [sequent_run] at hbuilds
  exact ⟨rs, hlength, hbuilds⟩

/-- Proving the second part of a conjunction before the first, after a failed
attempt at the first, gives what four requests give in the usual order. -/
theorem exists_script_of_run_second_first :
    let A : Formula := .var ⟨⟨'A', rfl⟩, []⟩
    let s : Sequent := ⟨[A], .conj (.impl A A) A⟩
    let d : Derivation := .node s .conjunctionIntro
      [.node ⟨[A], .impl A A⟩ .implicationIntro [.node ⟨[A, A], A⟩ .hypothesis []],
        .node ⟨[A], A⟩ .hypothesis []]
    let as : List Action :=
      [.applyAt [] Request.conjIntro.call, .applyAt [0] Request.hypothesis.call,
        .applyAt [1] Request.hypothesis.call, .applyAt [0] Request.intro.call,
        .applyAt [0, 0] Request.hypothesis.call]
    (goal s).run as = d ∧ d.isComplete = true ∧
      ∃ rs : List Request, rs.length = 4 ∧ rs.foldlM proveNext (goal s) = .ok d := by
  intro A s d as
  have hrun : (goal s).run as = d := rfl
  have hcomplete : d.isComplete = true := rfl
  obtain ⟨rs, hlength, hbuilds⟩ := exists_script_of_run s as (hrun ▸ hcomplete)
  rw [hrun] at hlength hbuilds
  exact ⟨hrun, hcomplete, rs, hlength, hbuilds⟩

end Derivation

end Sequitur
