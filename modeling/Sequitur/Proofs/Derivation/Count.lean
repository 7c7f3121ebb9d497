import Mathlib.Algebra.GroupWithZero.Nat
import Sequitur.Proofs.Derivation.Script

/-!
# Sequitur.Proofs.Derivation.Count

Counting the nodes of a derivation.  A weight gives each node a number that
depends on its rule only, and `total` adds them up over the whole tree, in the
order in which it is walked.  The numbers of nodes, of proved nodes and of
goals are such totals (`count_stats`).

* `total_node` follows the tree instead of the walk;
* `total_replace` says what replacing a node does to a total: only what is
  taken out and what is put in count, and `total_replace_ofStep` says it of a
  goal that gets a rule;
* `proved_proveNext`: a request that is applied proves one more node.
-/

namespace Sequitur

namespace Derivation

/-- The weights of all nodes, added up. -/
def total (w : Option Rule → Nat) (d : Derivation) : Nat :=
  ((d.walk fun _ => true).map fun p => w p.2.rule?).sum

variable {w : Option Rule → Nat}

/-! ## From the walk to the tree -/

@[simp] theorem total_goal (s : Sequent) : (goal s).total w = w none := rfl

/-- The walk through premises is as heavy as the premises, if the walk through
each of them is, whatever the path to it. -/
theorem sum_walkAmong {ds : List Derivation} (path : Path) (i : Nat)
    (h : ∀ d ∈ ds, ∀ path,
      ((walkFrom (fun _ => true) path d).map fun p => w p.2.rule?).sum = d.total w) :
    ((walkAmong (fun _ => true) path i ds).map fun p => w p.2.rule?).sum =
      (ds.map (total w)).sum := by
  induction ds generalizing i with
  | nil => rfl
  | cons d ds ih =>
      obtain ⟨hd, hds⟩ := List.forall_mem_cons.mp h
      rw [walkAmong, List.map_append, List.sum_append, hd, ih (i + 1) hds, List.map_cons,
        List.sum_cons]

/-- Where a walk starts does not matter for a total. -/
theorem sum_walkFrom (d : Derivation) (path : Path) :
    ((walkFrom (fun _ => true) path d).map fun p => w p.2.rule?).sum = d.total w := by
  induction d using inductOn generalizing path with
  | goal s => rfl
  | node s k ds ih =>
      have hpath := sum_walkAmong path 0 ih
      have hroot := sum_walkAmong [] 0 ih
      simp [total, walk, walkFrom, hpath, hroot]

theorem total_node (s : Sequent) (k : Rule) (ds : List Derivation) :
    (node s k ds).total w = w (some k) + (ds.map (total w)).sum := by
  rw [total, walk, walkFrom, if_pos rfl, List.map_cons, List.sum_cons,
    sum_walkAmong [] 0 fun d _ path => sum_walkFrom d path]
  rfl

/-! ## Replacing a node -/

theorem sum_map_set {ds : List Derivation} {m : Nat} {d : Derivation} (d' : Derivation)
    (h : ds[m]? = some d) :
    ((ds.set m d').map (total w)).sum + d.total w = (ds.map (total w)).sum + d'.total w := by
  induction ds generalizing m with
  | nil => simp at h
  | cons e ds ih =>
      cases m with
      | zero =>
          obtain rfl : e = d := by simpa using h
          simp only [List.set_cons_zero, List.map_cons, List.sum_cons]
          omega
      | succ m =>
          have hrest := ih (m := m) (by simpa using h)
          simp only [List.set_cons_succ, List.map_cons, List.sum_cons]
          omega

/-- Replacing a node changes a total by what is taken out and what is put in. -/
theorem total_replace {d old : Derivation} {path : Path} (new : Derivation)
    (h : d.at? path = some old) :
    (d.replace new path).total w + old.total w = d.total w + new.total w := by
  induction path generalizing d with
  | nil =>
      obtain rfl : d = old := Option.some.inj h
      rw [replace, Nat.add_comm]
  | cons i path ih =>
      obtain ⟨s, k, ds, m, premise, rfl, rfl, hm, hold⟩ := at?_cons_eq_some h
      have hpremise := ih hold
      have hset := sum_map_set (w := w) (premise.replace new path) hm
      rw [replace_cons hm, total_node, total_node]
      omega

/-- What is put in when a request is applied: one rule, and a goal for each
premise. -/
theorem total_ofStep (s : Sequent) (step : Step) :
    (ofStep s step).total w = w (some step.rule) + step.premises.length * w none := by
  have hgoals : (step.premises.map goal).map (total w) =
      List.replicate step.premises.length (w none) := by
    rw [List.map_map, ← List.map_const']
    rfl
  rw [ofStep, total_node, hgoals, List.sum_replicate_nat]

/-! ## Counts -/

/-- A count that each node raises by its weight is, over all nodes, the total. -/
theorem count_stats {count : Stats → Nat} (h0 : count ⟨0, 0, 0, 0⟩ = 0)
    (hadd : ∀ st n, count (st.add n) = count st + w n.2.rule?) (d : Derivation) :
    count d.stats = d.total w := by
  have hfold : ∀ (st : Stats) (nodes : List (Path × Derivation)),
      count (nodes.foldl Stats.add st) = count st + (nodes.map fun n => w n.2.rule?).sum := by
    intro st nodes
    induction nodes generalizing st with
    | nil => rfl
    | cons n nodes ih =>
        rw [List.foldl_cons, ih, hadd, List.map_cons, List.sum_cons, Nat.add_assoc]
  rw [stats, hfold, h0, Nat.zero_add, total]

/-- The number of nodes is the total that counts each node once. -/
theorem stats_nodes (d : Derivation) : d.stats.nodes = d.total fun _ => 1 :=
  count_stats rfl (fun _ _ => rfl) d

/-- A node counts itself and the nodes of its premises. -/
theorem stats_nodes_node (s : Sequent) (k : Rule) (ds : List Derivation) :
    (node s k ds).stats.nodes = 1 + (ds.map fun d => d.stats.nodes).sum := by
  simp only [stats_nodes, total_node]

/-- The weight that counts nodes with a rule. -/
def ruleWeight (k : Option Rule) : Nat := if k.isSome then 1 else 0

/-- The weight that counts nodes without a rule. -/
def goalWeight (k : Option Rule) : Nat := if k.isNone then 1 else 0

/-- The number of proved nodes is the total that counts each rule once. -/
theorem stats_proved (d : Derivation) : d.stats.proved = d.total ruleWeight :=
  count_stats rfl (fun _ _ => rfl) d

/-- The number of goals is the total that counts each goal once. -/
theorem stats_goals (d : Derivation) : d.stats.goals = d.total goalWeight :=
  count_stats rfl (fun _ _ => rfl) d

@[simp] theorem stats_proved_goal (s : Sequent) : (goal s).stats.proved = 0 := rfl

/-! ## Applying a request -/

/-- What a goal that gets a rule does to a total. -/
theorem total_replace_ofStep {d : Derivation} {path : Path} {s : Sequent} (step : Step)
    (h : d.at? path = some (goal s)) :
    (d.replace (ofStep s step) path).total w + w none =
      d.total w + (w (some step.rule) + step.premises.length * w none) := by
  rw [← total_goal (w := w) s, total_replace _ h, total_ofStep, total_goal]

/-- One more node is proved. -/
theorem proved_replace_ofStep {d : Derivation} {path : Path} {s : Sequent} (step : Step)
    (h : d.at? path = some (goal s)) :
    (d.replace (ofStep s step) path).stats.proved = d.stats.proved + 1 := by
  have htotal := total_replace_ofStep (w := ruleWeight) step h
  simpa [stats_proved, ruleWeight] using htotal

/-- There is a node more for each premise. -/
theorem nodes_replace_ofStep {d : Derivation} {path : Path} {s : Sequent} (step : Step)
    (h : d.at? path = some (goal s)) :
    (d.replace (ofStep s step) path).stats.nodes = d.stats.nodes + step.premises.length := by
  have htotal := total_replace_ofStep (w := fun _ => 1) step h
  rw [stats_nodes, stats_nodes]
  omega

/-- There is a goal more for each premise, and the goal that got the rule is
none any more. -/
theorem goals_replace_ofStep {d : Derivation} {path : Path} {s : Sequent} (step : Step)
    (h : d.at? path = some (goal s)) :
    (d.replace (ofStep s step) path).stats.goals + 1 = d.stats.goals + step.premises.length := by
  have htotal := total_replace_ofStep (w := goalWeight) step h
  simpa [stats_goals, goalWeight] using htotal

/-- **A request that is applied proves one more node.** -/
theorem proved_proveNext {d d' : Derivation} {r : Request} (h : d.proveNext r = .ok d') :
    d'.stats.proved = d.stats.proved + 1 := by
  obtain ⟨path, s, step, -, hat, -, rfl⟩ := proveNext_eq_ok h
  exact proved_replace_ofStep step hat

end Derivation

end Sequitur
