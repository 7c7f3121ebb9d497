import Mathlib.Data.List.Lex
import Sequitur.Proofs.Derivation.Frame

/-!
# Sequitur.Proofs.Derivation.Traversal

Walking through a derivation, following paths in it, looking for the first goal
and counting its nodes are four ways to go through the same tree.

* `pairwise_walk`: the walk comes by the paths in increasing order, a path
  before those that go on from it, and so by each of them once;
* `walk_bounded`: a walk that stops at a depth is the whole walk less what lies
  deeper;
* `nextGoal?_eq_find?`: the first goal is the first node of the walk without a
  rule;
* `stats_goals_eq_zero_iff`: there is no goal exactly if none is counted;
* `nodes_run`: a derivation that rules have made has one node more than its
  rules have premises.
-/

namespace Sequitur

namespace Derivation

variable {d : Derivation} {path : Path}

/-! ## The order of the walk -/

/-- A path comes before those that go on from it. -/
theorem lex_append_cons (path : Path) (i : Int) (p : Path) :
    List.Lex (· < ·) path (path ++ i :: p) := by
  simpa using List.Lex.append_left (· < ·) (.nil : List.Lex (· < ·) [] (i :: p)) path

/-- Of two paths that part, the one that turns left comes first. -/
theorem lex_append_lt (path : Path) {i j : Int} (h : i < j) (p q : Path) :
    List.Lex (· < ·) (path ++ i :: p) (path ++ j :: q) :=
  .append_left (· < ·) (.rel h) path

/-- What the walk comes by below a premise lies below that premise. -/
theorem exists_of_mem_walkAmong {ds : List Derivation} {i : Nat} {n : Path × Derivation}
    (h : n ∈ walkAmong (fun _ => true) path i ds) :
    ∃ (m : Nat) (p : Path), n.1 = path ++ ((i + m : Nat) : Int) :: p := by
  obtain ⟨q, e⟩ := n
  obtain ⟨m, _, p, _, hq, _⟩ := (mem_walkAmong path i fun d _ path => mem_walkFrom).mp h
  exact ⟨m, p, hq⟩

/-- The walk through premises is in order if the walk through each of them is:
what lies below a premise comes before what lies below the next. -/
theorem pairwise_walkAmong {ds : List Derivation} (path : Path) (i : Nat)
    (h : ∀ d ∈ ds, ∀ path,
      (walkFrom (fun _ => true) path d).Pairwise fun a b => List.Lex (· < ·) a.1 b.1) :
    (walkAmong (fun _ => true) path i ds).Pairwise fun a b => List.Lex (· < ·) a.1 b.1 := by
  induction ds generalizing i with
  | nil => simp [walkAmong]
  | cons d ds ih =>
      obtain ⟨hd, hds⟩ := List.forall_mem_cons.mp h
      rw [walkAmong, List.pairwise_append]
      refine ⟨hd _, ih (i + 1) hds, ?_⟩
      intro a ha b hb
      obtain ⟨p, hp, -⟩ := mem_walkFrom.mp ha
      obtain ⟨m, q, hq⟩ := exists_of_mem_walkAmong hb
      rw [hp, hq, List.append_assoc, List.singleton_append]
      exact lex_append_lt path (by omega) p q

theorem pairwise_walkFrom (d : Derivation) (path : Path) :
    (walkFrom (fun _ => true) path d).Pairwise fun a b => List.Lex (· < ·) a.1 b.1 := by
  induction d using inductOn generalizing path with
  | goal s => simp [walkFrom]
  | node s k ds ih =>
      rw [walkFrom, if_pos rfl, List.pairwise_cons]
      refine ⟨?_, pairwise_walkAmong path 0 ih⟩
      intro n hn
      obtain ⟨m, p, hp⟩ := exists_of_mem_walkAmong hn
      rw [hp]
      exact lex_append_cons path _ p

/-- **The walk comes by the paths in increasing order.** -/
theorem pairwise_walk (d : Derivation) :
    ((d.walk fun _ => true).map Prod.fst).Pairwise (List.Lex (· < ·)) :=
  List.pairwise_map.mpr (pairwise_walkFrom d [])

/-- No path is visited twice. -/
theorem nodup_walk (d : Derivation) : ((d.walk fun _ => true).map Prod.fst).Nodup := by
  apply (pairwise_walk d).imp
  rintro a b hlex rfl
  exact List.lex_irrefl (fun x => Int.lt_irrefl x) a hlex

/-! ## Walks that stop at a depth -/

/-- Nothing below a node is as short as the path to it. -/
theorem filter_walkAmong_eq_nil {m : Nat} (ds : List Derivation) (i : Nat) (h : m ≤ path.length) :
    (walkAmong (fun _ => true) path i ds).filter (fun n => n.1.length ≤ m) = [] := by
  rw [List.filter_eq_nil_iff]
  intro n hn
  obtain ⟨j, p, hp⟩ := exists_of_mem_walkAmong hn
  have hlength : n.1.length = path.length + (p.length + 1) := by
    rw [hp, List.length_append, List.length_cons]
  rw [decide_eq_true_eq]
  omega

theorem walkAmong_bounded {m : Nat} {ds : List Derivation} (i : Nat) (hpath : path.length < m)
    (h : ∀ d ∈ ds, ∀ path : Path, path.length ≤ m →
      walkFrom (fun p => p.length < m) path d =
        (walkFrom (fun _ => true) path d).filter fun n => n.1.length ≤ m) :
    walkAmong (fun p => p.length < m) path i ds =
      (walkAmong (fun _ => true) path i ds).filter fun n => n.1.length ≤ m := by
  induction ds generalizing i with
  | nil => simp [walkAmong]
  | cons d ds ih =>
      obtain ⟨hd, hds⟩ := List.forall_mem_cons.mp h
      have hlength : (path ++ [(i : Int)]).length ≤ m := by
        rw [List.length_append, List.length_singleton]
        omega
      have hpremise := hd _ hlength
      rw [walkAmong, walkAmong, List.filter_append, hpremise, ih (i + 1) hds]

theorem walkFrom_bounded {m : Nat} (d : Derivation) (hpath : path.length ≤ m) :
    walkFrom (fun p => p.length < m) path d =
      (walkFrom (fun _ => true) path d).filter fun n => n.1.length ≤ m := by
  induction d using inductOn generalizing path with
  | goal s => simp [walkFrom, hpath]
  | node s k ds ih =>
      rw [walkFrom, walkFrom, if_pos rfl, List.filter_cons_of_pos (by simpa using hpath)]
      -- at the bound the walk stops, and nothing deeper is within it
      by_cases hlt : path.length < m
      · rw [if_pos (by simpa using hlt),
          walkAmong_bounded 0 hlt fun d hd path hpath => ih d hd hpath]
      · rw [if_neg (by simpa using hlt), filter_walkAmong_eq_nil ds 0 (by omega)]

/-- **A walk that stops at a depth leaves out what lies deeper**, and nothing else. -/
theorem walk_bounded (d : Derivation) (m : Nat) :
    d.walk (fun path => path.length < m) =
      (d.walk fun _ => true).filter fun n => n.1.length ≤ m :=
  walkFrom_bounded d (Nat.zero_le m)

/-! ## The first goal -/

theorem nextGoalAmong?_eq_find? {ds : List Derivation} (path : Path) (i : Nat)
    (h : ∀ d ∈ ds, ∀ path, d.nextGoal?.map (path ++ ·) =
      ((walkFrom (fun _ => true) path d).find? fun n => n.2.rule?.isNone).map Prod.fst) :
    (nextGoalAmong? i ds).map (path ++ ·) =
      ((walkAmong (fun _ => true) path i ds).find? fun n => n.2.rule?.isNone).map Prod.fst := by
  induction ds generalizing i with
  | nil => simp [walkAmong, nextGoalAmong?]
  | cons d ds ih =>
      obtain ⟨hd, hds⟩ := List.forall_mem_cons.mp h
      have hpremise := hd (path ++ [(i : Int)])
      rw [walkAmong, List.find?_append, Option.map_or, ← hpremise, ← ih (i + 1) hds,
        nextGoalAmong?]
      cases d.nextGoal? with
      | none => simp
      | some p => simp

theorem map_nextGoal?_eq_find? (d : Derivation) (path : Path) :
    d.nextGoal?.map (path ++ ·) =
      ((walkFrom (fun _ => true) path d).find? fun n => n.2.rule?.isNone).map Prod.fst := by
  induction d using inductOn generalizing path with
  | goal s => simp [walkFrom, nextGoal?, rule?]
  | node s k ds ih =>
      rw [walkFrom, if_pos rfl, List.find?_cons_of_neg (by simp [rule?]), nextGoal?,
        nextGoalAmong?_eq_find? path 0 ih]

/-- **The first goal is the first node of the walk without a rule.** -/
theorem nextGoal?_eq_find? (d : Derivation) :
    d.nextGoal? = ((d.walk fun _ => true).find? fun n => n.2.rule?.isNone).map Prod.fst := by
  simpa [walk] using map_nextGoal?_eq_find? d []

theorem nextGoal?_eq_none_iff_forall_mem :
    d.nextGoal? = none ↔ ∀ n ∈ d.walk fun _ => true, n.2.rule? ≠ none := by
  simp [nextGoal?_eq_find?, List.find?_eq_none]

/-! ## Counts -/

/-- No goal is counted exactly if there is none. -/
theorem stats_goals_eq_zero_iff : d.stats.goals = 0 ↔ d.isComplete = true := by
  have hweight : ∀ k : Option Rule, goalWeight k = 0 ↔ k ≠ none := by
    intro k
    cases k <;> simp [goalWeight]
  rw [stats_goals, total, List.sum_eq_zero_iff_forall_eq_nat, List.forall_mem_map, isComplete,
    Option.isNone_iff_eq_none, nextGoal?_eq_none_iff_forall_mem]
  simp only [hweight]

/-- A complete derivation refuses every call for being complete, and no other
derivation does: ex falso can be applied to every goal. -/
theorem isComplete_iff_proveNextCall :
    d.isComplete = true ↔ ∀ call, d.proveNextCall call = .error .complete := by
  rw [isComplete, Option.isNone_iff_eq_none]
  constructor
  · intro h call
    rw [proveNextCall, h]
  · intro h
    by_contra hnext
    obtain ⟨path, hpath⟩ := Option.ne_none_iff_exists'.mp hnext
    obtain ⟨s, hat⟩ := exists_goal_of_nextGoal? hpath
    have hcall := h Request.exfalso.call
    simp only [proveNextCall, hpath] at hcall
    rw [applyCallAt_of_ok hat rfl] at hcall
    contradiction

/-- Weights that are added at every node can be added up apart. -/
theorem total_add (v w : Option Rule → Nat) (d : Derivation) :
    d.total (fun k => v k + w k) = d.total v + d.total w := by
  unfold total
  induction d.walk fun _ => true with
  | nil => rfl
  | cons n nodes ih =>
      simp only [List.map_cons, List.sum_cons, ih]
      omega

/-- Every node has a rule or is a goal. -/
theorem nodes_eq_proved_add_goals (d : Derivation) :
    d.stats.nodes = d.stats.proved + d.stats.goals := by
  have hweight : (fun _ => 1) = fun k => ruleWeight k + goalWeight k := by
    funext k
    cases k <;> rfl
  rw [stats_nodes, stats_proved, stats_goals, ← total_add, hweight]

/-- The weight of a node: the number of premises of its rule, if it has one. -/
def arityWeight (k : Option Rule) : Nat := (k.map Rule.arity).getD 0

/-- **Every node but the root is a premise of a rule**, after every run. -/
theorem nodes_run (s : Sequent) (as : List Action) :
    ((goal s).run as).stats.nodes = 1 + ((goal s).run as).total arityWeight := by
  apply run_induction (P := fun d => d.stats.nodes = 1 + d.total arityWeight) as rfl
  intro d path s r step hd hat hstep
  have htotal := total_replace_ofStep (w := arityWeight) step hat
  have harity : arityWeight (some step.rule) = step.premises.length :=
    (Sequent.inference_of_step hstep).length_premises.symm
  have hgoal : arityWeight none = 0 := rfl
  rw [harity, hgoal, Nat.mul_zero] at htotal
  rw [nodes_replace_ofStep step hat]
  omega

/-! ## All together -/

/-- **Walks, paths, goals and counts agree.**  The whole walk comes by exactly
the paths that lead to a node, with that node, in strictly increasing order, and
so by each of them once.  A walk that stops at a depth comes by those that are no
longer, in the same order.  The first goal is the first node of the walk without
a rule, and there is none if and only if all have one.  A derivation is complete
if and only if no goal is counted, and if and only if every call is refused for
that reason.  Every node is counted as proved or as a goal, and in a derivation
that rules have made each node but the root is a premise of one of them. -/
theorem walk_agrees (d : Derivation) :
    (∀ path n, (path, n) ∈ d.walk (fun _ => true) ↔ d.at? path = some n) ∧
    ((d.walk fun _ => true).map Prod.fst).Pairwise (List.Lex (· < ·)) ∧
    ((d.walk fun _ => true).map Prod.fst).Nodup ∧
    (∀ m : Nat, d.walk (fun path => path.length < m) =
      (d.walk fun _ => true).filter fun n => n.1.length ≤ m) ∧
    d.nextGoal? = ((d.walk fun _ => true).find? fun n => n.2.rule?.isNone).map Prod.fst ∧
    (d.nextGoal? = none ↔ ∀ n ∈ d.walk fun _ => true, n.2.rule? ≠ none) ∧
    (d.isComplete = true ↔ d.stats.goals = 0) ∧
    (d.isComplete = true ↔ ∀ call, d.proveNextCall call = .error .complete) ∧
    d.stats.nodes = d.stats.proved + d.stats.goals ∧
    ∀ s as, d = (goal s).run as → d.stats.nodes = 1 + d.total arityWeight := by
  refine ⟨fun path n => mem_walk_iff, pairwise_walk d, nodup_walk d, walk_bounded d,
    nextGoal?_eq_find? d, nextGoal?_eq_none_iff_forall_mem, stats_goals_eq_zero_iff.symm,
    isComplete_iff_proveNextCall, nodes_eq_proved_add_goals d, ?_⟩
  rintro s as rfl
  exact nodes_run s as

/-- A proof of `A /\ (A -> A)` from `A` in which the first part is left to be
proved: the walk comes by four nodes, of which the second is the goal. -/
theorem walk_agrees_conj :
    let A : Formula := .var ⟨⟨'A', rfl⟩, []⟩
    let s : Sequent := ⟨[A], .conj A (.impl A A)⟩
    let as : List Action := [.proveNext Request.conjIntro.call,
      .applyAt [1] Request.implIntro.call, .applyAt [1, 0] Request.hypothesis.call]
    let d := (goal s).run as
    (d.walk fun _ => true).map Prod.fst = [[], [0], [1], [1, 0]] ∧
      d.nextGoal? = some [0] ∧
      (d.walk fun path => path.length < 1).map Prod.fst = [[], [0], [1]] ∧
      d.isComplete = false ∧ d.stats.goals = 1 ∧
      d.stats.nodes = 1 + d.total arityWeight ∧ d.total arityWeight = 3 := by
  intro A s as d
  have hnodes := (walk_agrees d).2.2.2.2.2.2.2.2.2 s as rfl
  exact ⟨rfl, rfl, rfl, rfl, rfl, hnodes, rfl⟩

end Derivation

end Sequitur
