import Sequitur.Proofs.Derivation.Count
import Sequitur.Proofs.Derivation.Growth
import Sequitur.Proofs.Derivation.Walk

/-!
# Sequitur.Proofs.Derivation.Frame

What applying a request at a path changes, and what it leaves alone.

Of two nodes one may lie above the other, or they lie apart: neither path is
the beginning of the other.  Replacing a node touches nothing that lies apart
from it (`at?_replace_apart`), and of what lies above it only the premise that
leads to it (`face_at?_replace`).  Goals have nothing below them, so different
goals lie apart (`not_prefix_of_goal`), and replacing one and then the other
comes to the same in either order (`replace_comm`).

A call that is applied replaces a goal.  From the above follow what it does to
the tree and to the statistics (`applyCallAt_changes`), and that calls at
different goals do not notice each other (`applyCallAt_comm`).
-/

namespace Sequitur

/-- A call that fails at a sequent, as an error about a derivation. -/
def DerivationError.ofCall : CallError → DerivationError
  | .request e => .invalid e
  | .notApplicable e => .refused e

namespace Derivation

variable {d old new : Derivation} {p q : Path} {s : Sequent}

/-! ## Replacing a premise -/

/-- What a node shows of itself: its sequent, its rule and the number of its
premises. -/
def face (d : Derivation) : Sequent × Option Rule × Nat := (d.sequent, d.rule?, d.premises.length)

/-- Below the premise that was exchanged there is what is below the new one. -/
theorem at?_set_self {k : Rule} {ds : List Derivation} {m : Nat} (hm : ds[m]? = some old)
    (new : Derivation) (q : Path) :
    (node s k (ds.set m new)).at? ((m : Int) :: q) = new.at? q := by
  obtain ⟨hlt, -⟩ := List.getElem?_eq_some_iff.mp hm
  exact at?_cons_of_premise (List.getElem?_set_self hlt) q

/-- Nothing has changed below the other premises. -/
theorem at?_set_ne {k : Rule} {ds : List Derivation} {m : Nat} {i : Int} (h : i ≠ m)
    (new : Derivation) (q : Path) :
    (node s k (ds.set m new)).at? (i :: q) = (node s k ds).at? (i :: q) := by
  have hnth : nth? (ds.set m new) i = nth? ds i := by
    cases i with
    | ofNat n =>
        have hne : m ≠ n := by
          rintro rfl
          exact h rfl
        exact List.getElem?_set_ne hne
    | negSucc n => rfl
  rw [at?_cons, at?_cons, premises, premises, hnth]

/-! ## Replacing a node -/

/-- Below the new node there is what it has below itself. -/
theorem at?_replace_append (h : d.at? p = some old) (new : Derivation) (q : Path) :
    (d.replace new p).at? (p ++ q) = new.at? q := by
  induction p generalizing d with
  | nil => rfl
  | cons i p ih =>
      obtain ⟨s, k, ds, m, premise, rfl, rfl, hm, hold⟩ := at?_cons_eq_some h
      rw [replace_cons hm, List.cons_append, at?_set_self hm, ih hold]

theorem at?_replace_self (h : d.at? p = some old) (new : Derivation) :
    (d.replace new p).at? p = some new := by
  simpa using at?_replace_append h new []

/-- **Whatever lies apart stays as it is.** -/
theorem at?_replace_apart (h : d.at? p = some old) (new : Derivation) (hpq : ¬ p <+: q)
    (hqp : ¬ q <+: p) : (d.replace new p).at? q = d.at? q := by
  induction p generalizing d q with
  | nil => exact absurd List.nil_prefix hpq
  | cons i p ih =>
      cases q with
      | nil => exact absurd List.nil_prefix hqp
      | cons j q =>
          obtain ⟨s, k, ds, m, premise, rfl, rfl, hm, hold⟩ := at?_cons_eq_some h
          rw [replace_cons hm]
          by_cases hj : j = m
          · subst hj
            simp only [List.cons_prefix_cons, true_and] at hpq hqp
            rw [at?_set_self hm, at?_cons_of_premise hm]
            exact ih hold hpq hqp
          · exact at?_set_ne hj _ q

/-- **Whatever does not lie below keeps its face**, above the node that is
replaced as well. -/
theorem face_at?_replace (h : d.at? p = some old) (new : Derivation) (hpq : ¬ p <+: q) :
    ((d.replace new p).at? q).map face = (d.at? q).map face := by
  induction p generalizing d q with
  | nil => exact absurd List.nil_prefix hpq
  | cons i p ih =>
      obtain ⟨s, k, ds, m, premise, rfl, rfl, hm, hold⟩ := at?_cons_eq_some h
      rw [replace_cons hm]
      cases q with
      | nil => simp [face, sequent, rule?, premises]
      | cons j q =>
          by_cases hj : j = m
          · subst hj
            simp only [List.cons_prefix_cons, true_and] at hpq
            rw [at?_set_self hm, at?_cons_of_premise hm]
            exact ih hold hpq
          · rw [at?_set_ne hj]

/-- **Nodes that lie apart can be replaced in either order.** -/
theorem replace_comm {old' : Derivation} (hp : d.at? p = some old) (hq : d.at? q = some old')
    (hpq : ¬ p <+: q) (hqp : ¬ q <+: p) (x y : Derivation) :
    (d.replace x p).replace y q = (d.replace y q).replace x p := by
  induction p generalizing d q with
  | nil => exact absurd List.nil_prefix hpq
  | cons i p ih =>
      cases q with
      | nil => exact absurd List.nil_prefix hqp
      | cons j q =>
          obtain ⟨s, k, ds, m, premise, rfl, rfl, hm, hold⟩ := at?_cons_eq_some hp
          obtain ⟨_, _, _, n, premise', hnode, rfl, hn, hold'⟩ := at?_cons_eq_some hq
          cases hnode
          obtain ⟨hmlt, -⟩ := List.getElem?_eq_some_iff.mp hm
          obtain ⟨hnlt, -⟩ := List.getElem?_eq_some_iff.mp hn
          rw [replace_cons hm, replace_cons hn]
          by_cases hmn : m = n
          · -- both lie below one premise, which is replaced twice
            subst hmn
            obtain rfl : premise = premise' := Option.some.inj (hm.symm.trans hn)
            simp only [List.cons_prefix_cons, true_and] at hpq hqp
            rw [replace_cons (List.getElem?_set_self hmlt),
              replace_cons (List.getElem?_set_self hmlt), List.set_set, List.set_set,
              ih hold hold' hpq hqp]
          · have hn' : (ds.set m (premise.replace x p))[n]? = some premise' := by
              rw [List.getElem?_set_ne hmn, hn]
            have hm' : (ds.set n (premise'.replace y q))[m]? = some premise := by
              rw [List.getElem?_set_ne (Ne.symm hmn), hm]
            rw [replace_cons hn', replace_cons hm', List.set_comm _ _ hmn]

/-- There is nothing below a goal, so that no other node's path leads through it. -/
theorem not_prefix_of_goal {n : Derivation} (hp : d.at? p = some (goal s))
    (hq : d.at? q = some n) (hne : p ≠ q) : ¬ p <+: q := by
  rintro ⟨more, rfl⟩
  rw [at?_append, hp, Option.bind_some, at?_goal_eq_some] at hq
  exact hne (by rw [hq.1, List.append_nil])

/-! ## The size after a goal has got a rule -/

/-- The longest path either was there before, or leads to a premise of the rule. -/
theorem depth_replace_ofStep (step : Step) (h : d.at? p = some (goal s)) :
    (d.replace (ofStep s step) p).stats.depth =
      max d.stats.depth (if 0 < step.premises.length then p.length + 2 else 0) := by
  have hbelow : ∀ more n, (ofStep s step).at? more = some n → more = [] ∨
      0 < step.premises.length ∧ more.length = 1 := by
    intro more n hn
    rcases at?_node_eq_some.mp hn with ⟨rfl, -⟩ | ⟨m, premise, rest, hm, rfl, hrest⟩
    · exact .inl rfl
    · obtain ⟨t, ht, rfl⟩ := List.mem_map.mp (List.mem_of_getElem? hm)
      obtain ⟨rfl, -⟩ := at?_goal_eq_some.mp hrest
      exact .inr ⟨List.length_pos_of_mem ht, rfl⟩
  have hle : ∀ m, (d.replace (ofStep s step) p).stats.depth ≤ m ↔
      max d.stats.depth (if 0 < step.premises.length then p.length + 2 else 0) ≤ m := by
    intro m
    rw [Nat.max_le, depth_le_iff, depth_le_iff]
    constructor
    · intro hpaths
      constructor
      · intro q n hq
        have hgrows : Grows d (d.replace (ofStep s step) p) := grows_replace h rfl
        obtain ⟨n', hq', -⟩ := hgrows q n hq
        exact hpaths q n' hq'
      · split
        next hpos =>
          have hfirst : (ofStep s step).at? [0] = some (goal step.premises[0]) := by
            rw [ofStep, at?_cons, premises]
            simp [nth?]
          have hat := (at?_replace_append h (ofStep s step) [0]).trans hfirst
          have hlength := hpaths _ _ hat
          rw [List.length_append, List.length_singleton] at hlength
          exact hlength
        next => exact Nat.zero_le m
    · rintro ⟨hpaths, hpremises⟩ q n hq
      by_cases hpq : p <+: q
      · obtain ⟨more, rfl⟩ := hpq
        rw [at?_replace_append h] at hq
        rcases hbelow more n hq with rfl | ⟨hpos, hlength⟩
        · simpa using hpaths p _ h
        · rw [if_pos hpos] at hpremises
          rw [List.length_append, hlength]
          omega
      · have hface := face_at?_replace h (ofStep s step) hpq
        rw [hq, Option.map_some] at hface
        obtain ⟨n', hq', -⟩ := Option.map_eq_some_iff.mp hface.symm
        exact hpaths q n' hq'
  exact Nat.le_antisymm ((hle _).mpr (Nat.le_refl _)) ((hle _).mp (Nat.le_refl _))

/-! ## Calls -/

/-- At a goal a call does what it does at the goal's sequent. -/
theorem applyCallAt_goal (h : d.at? p = some (goal s)) (call : Call) :
    d.applyCallAt p call =
      ((s.applyCall call).mapError .ofCall).map fun step => d.replace (ofStep s step) p := by
  rw [applyCallAt, Sequent.applyCall, h]
  cases hcheck : call.check with
  | error e => rfl
  | ok r =>
      simp only [applyAt, h]
      cases s.apply r with
      | error e => rfl
      | ok step => rfl

theorem applyCallAt_of_ok {call : Call} {step : Step} (h : d.at? p = some (goal s))
    (happly : s.applyCall call = .ok step) :
    d.applyCallAt p call = .ok (d.replace (ofStep s step) p) := by
  rw [applyCallAt_goal h, happly]
  rfl

theorem applyCallAt_of_error {call : Call} {e : CallError} (h : d.at? p = some (goal s))
    (happly : s.applyCall call = .error e) : d.applyCallAt p call = .error (.ofCall e) := by
  rw [applyCallAt_goal h, happly]
  rfl

theorem length_premises_of_applyCall {call : Call} {step : Step}
    (h : s.applyCall call = .ok step) : step.premises.length = step.rule.arity := by
  rw [Sequent.applyCall] at h
  split at h
  · contradiction
  · next r _ =>
      split at h
      · contradiction
      · next step' happly =>
          obtain rfl := Except.ok.inj h
          exact (Sequent.inference_of_step (Sequent.apply_eq_ok_iff.mp happly)).length_premises

/-- When a call is applied, and what it gives. -/
theorem applyCallAt_eq_ok_iff {d' : Derivation} {call : Call} :
    d.applyCallAt p call = .ok d' ↔
      ∃ s step, d.at? p = some (goal s) ∧ s.applyCall call = .ok step ∧
        d.replace (ofStep s step) p = d' := by
  cases hat : d.at? p with
  | none => simp [applyCallAt, hat]
  | some n =>
      cases n with
      | node t k ds => simp [applyCallAt, hat]
      | goal t =>
          cases happly : t.applyCall call with
          | error e => simp [applyCallAt_of_error hat happly, happly]
          | ok step => simp [applyCallAt_of_ok hat happly, happly]

/-- **Applying a call changes its target and nothing else.**  It succeeds if and
only if there is a goal at the path and the call fits its sequent; a call that
fails can be left out of any run.  If it succeeds, the goal has got the rule, with
goals for the premises.  Every node that is not below has kept its sequent, its
rule and the number of its premises, and what lies apart is the same down to
its leaves.  There is one more proved node; nodes and goals have grown by the
arity of the rule, less the goal that was proved; and the depth has grown only
if a premise lies deeper than everything else. -/
theorem applyCallAt_changes (d : Derivation) (path : Path) (call : Call) :
    ((∃ d', d.applyCallAt path call = .ok d') ↔
      ∃ s step, d.at? path = some (goal s) ∧ s.applyCall call = .ok step) ∧
    (∀ e, d.applyCallAt path call = .error e →
      ∀ as, d.run (.applyAt path call :: as) = d.run as) ∧
    ∀ s step, d.at? path = some (goal s) → s.applyCall call = .ok step →
      ∃ d', d.applyCallAt path call = .ok d' ∧
        d'.at? path = some (node s step.rule (step.premises.map goal)) ∧
        (∀ q, ¬ path <+: q → (d'.at? q).map face = (d.at? q).map face) ∧
        (∀ q, ¬ path <+: q → ¬ q <+: path → d'.at? q = d.at? q) ∧
        d'.stats.nodes = d.stats.nodes + step.rule.arity ∧
        d'.stats.proved = d.stats.proved + 1 ∧
        d'.stats.goals + 1 = d.stats.goals + step.rule.arity ∧
        d'.stats.depth =
          max d.stats.depth (if 0 < step.rule.arity then path.length + 2 else 0) := by
  refine ⟨?_, ?_, ?_⟩
  · simp only [applyCallAt_eq_ok_iff]
    constructor
    · rintro ⟨-, s, step, hat, happly, -⟩
      exact ⟨s, step, hat, happly⟩
    · rintro ⟨s, step, hat, happly⟩
      exact ⟨_, s, step, hat, happly, rfl⟩
  · intro e he as
    rw [run, List.foldl_cons, after, attempt, he, run]
  · intro s step hat happly
    rw [← length_premises_of_applyCall happly]
    refine ⟨d.replace (ofStep s step) path, ?_, ?_, ?_, ?_, ?_, ?_, ?_, ?_⟩
    · exact applyCallAt_eq_ok_iff.mpr ⟨s, step, hat, happly, rfl⟩
    · exact at?_replace_self hat (ofStep s step)
    · exact fun q => face_at?_replace hat (ofStep s step)
    · exact fun q => at?_replace_apart hat (ofStep s step)
    · exact nodes_replace_ofStep step hat
    · exact proved_replace_ofStep step hat
    · exact goals_replace_ofStep step hat
    · exact depth_replace_ofStep step hat

/-- Modus ponens at the second of two goals: two more nodes, one of the goals
gone and two come, and both deeper than what was there. -/
theorem applyCallAt_changes_second :
    let A : Formula := .var ⟨⟨'A', rfl⟩, []⟩
    let B : Formula := .var ⟨⟨'B', rfl⟩, []⟩
    let d : Derivation := .node ⟨[A], .conj A B⟩ .conjunctionIntro [.goal ⟨[A], A⟩, .goal ⟨[A], B⟩]
    let call := (Request.modusPonens A).call
    d.at? [1] = some (goal ⟨[A], B⟩) ∧
      Sequent.applyCall ⟨[A], B⟩ call = .ok ⟨.modusPonens, [⟨[A], .impl A B⟩, ⟨[A], A⟩]⟩ ∧
      d.stats = ⟨3, 1, 2, 2⟩ ∧
      ∃ d', d.applyCallAt [1] call = .ok d' ∧ (d'.at? []).map face = (d.at? []).map face ∧
        d'.at? [0] = d.at? [0] ∧ d'.stats.nodes = 5 ∧ d'.stats.proved = 2 ∧
        d'.stats.goals + 1 = 4 ∧ d'.stats.depth = 3 := by
  intro A B d call
  have hat : d.at? [1] = some (goal ⟨[A], B⟩) := rfl
  have happly : Sequent.applyCall ⟨[A], B⟩ call =
      .ok ⟨.modusPonens, [⟨[A], .impl A B⟩, ⟨[A], A⟩]⟩ := rfl
  obtain ⟨d', hok, -, hface, hapart, hstats⟩ :=
    (applyCallAt_changes d [1] call).2.2 _ _ hat happly
  exact ⟨hat, happly, rfl, d', hok, hface [] (by decide), hapart [0] (by decide) (by decide),
    hstats⟩

/-! ## Two calls -/

/-- **Calls at different goals do not notice each other.**  A call at one goal
is applied, or fails with the same error, whether or not a call has been applied
at another goal before.  If both are applied, it does not matter which is the
first. -/
theorem applyCallAt_comm {d d₁ : Derivation} {a b : Path} {r : Call} {u : Sequent}
    (hb : d.at? b = some (goal u)) (hne : a ≠ b) (h₁ : d.applyCallAt a r = .ok d₁) (t : Call) :
    ((∃ d₃, d₁.applyCallAt b t = .ok d₃) ↔ ∃ d₂, d.applyCallAt b t = .ok d₂) ∧
    (∀ e, d₁.applyCallAt b t = .error e ↔ d.applyCallAt b t = .error e) ∧
    ∀ d₂, d.applyCallAt b t = .ok d₂ →
      ∃ d₃, d₁.applyCallAt b t = .ok d₃ ∧ d₂.applyCallAt a r = .ok d₃ := by
  obtain ⟨s, step, ha, hr, rfl⟩ := applyCallAt_eq_ok_iff.mp h₁
  have hab : ¬ a <+: b := not_prefix_of_goal ha hb hne
  have hba : ¬ b <+: a := not_prefix_of_goal hb ha (Ne.symm hne)
  have hb₁ : (d.replace (ofStep s step) a).at? b = some (goal u) :=
    (at?_replace_apart ha _ hab hba).trans hb
  cases ht : u.applyCall t with
  | error e => simp [applyCallAt_of_error hb ht, applyCallAt_of_error hb₁ ht]
  | ok step' =>
      have ha₂ : (d.replace (ofStep u step') b).at? a = some (goal s) :=
        (at?_replace_apart hb _ hba hab).trans ha
      have hcomm := replace_comm ha hb hab hba (ofStep s step) (ofStep u step')
      simp [applyCallAt_of_ok hb ht, applyCallAt_of_ok hb₁ ht, applyCallAt_of_ok ha₂ hr, hcomm]

/-- The two goals that a conjunction leaves, below a step that they share: either
may be proved first, and a call that fails at one of them fails after the other
has been proved. -/
theorem applyCallAt_comm_conj :
    let A : Formula := .var ⟨⟨'A', rfl⟩, []⟩
    let q : Sequent := ⟨[A], .conj A A⟩
    let d : Derivation := .node ⟨[], .impl A (.conj A A)⟩ .implicationIntro
      [.node q .conjunctionIntro [.goal ⟨[A], A⟩, .goal ⟨[A], A⟩]]
    let r := Request.hypothesis.call
    let t := Request.exfalso.call
    ∃ d₁ d₂ d₃, d.applyCallAt [0, 0] r = .ok d₁ ∧ d.applyCallAt [0, 1] t = .ok d₂ ∧
      d₁.applyCallAt [0, 1] t = .ok d₃ ∧ d₂.applyCallAt [0, 0] r = .ok d₃ ∧
      d₁.applyCallAt [0, 1] Request.intro.call =
        .error (.refused ⟨.intro, .notIntroducible⟩) := by
  intro A q d r t
  have hb : d.at? [0, 1] = some (goal ⟨[A], A⟩) := rfl
  obtain ⟨d₁, h₁⟩ : ∃ d₁, d.applyCallAt [0, 0] r = .ok d₁ := ⟨_, rfl⟩
  obtain ⟨d₂, h₂⟩ : ∃ d₂, d.applyCallAt [0, 1] t = .ok d₂ := ⟨_, rfl⟩
  obtain ⟨d₃, h₃, h₃'⟩ := (applyCallAt_comm hb (by decide) h₁ t).2.2 d₂ h₂
  have hfail : d.applyCallAt [0, 1] Request.intro.call =
      .error (.refused ⟨.intro, .notIntroducible⟩) := rfl
  exact ⟨d₁, d₂, d₃, h₁, h₂, h₃, h₃',
    ((applyCallAt_comm hb (by decide) h₁ Request.intro.call).2.1 _).mpr hfail⟩

end Derivation

end Sequitur
