import Sequitur.Proofs.Derivation.Reachable
import Sequitur.Proofs.Rule.Inference

/-!
# Sequitur.Proofs.Derivation.Growth

What stays as it is while a derivation grows.  A node keeps its sequent, and
once it has a rule it keeps the rule and the sequents of the premises
(`Keeps`).  A derivation grows into another if each of its nodes is still
there, at the same path, with what it keeps (`Grows`).

Putting something with the same sequent in the place of a goal lets a
derivation grow (`grows_replace`), and this is all that an action can do, so
that a derivation grows along every run (`grows_run`).  Together with the
well-formedness of all derivations that runs lead to this is
`run_wellFormed`.
-/

namespace Sequitur

/-! ## The number of premises -/

/-- A rule has as many premises as its arity says. -/
theorem Sequent.Inference.length_premises {s : Sequent} {k : Rule} {premises : List Sequent}
    (h : s.Inference k premises) : premises.length = k.arity := by
  cases h <;> rfl

namespace Derivation

/-! ## Growth -/

/-- What a node keeps for good. -/
structure Keeps (old new : Derivation) : Prop where
  sequent_eq : new.sequent = old.sequent
  rule?_eq : ∀ {k}, old.rule? = some k → new.rule? = some k
  premises_eq : ∀ {k}, old.rule? = some k →
    new.premises.map sequent = old.premises.map sequent

/-- Every node is still at its path, with what it keeps. -/
def Grows (d d' : Derivation) : Prop :=
  ∀ path old, d.at? path = some old → ∃ new, d'.at? path = some new ∧ Keeps old new

theorem Keeps.refl (n : Derivation) : Keeps n n := ⟨rfl, id, fun _ => rfl⟩

theorem Keeps.trans {n₁ n₂ n₃ : Derivation} (h : Keeps n₁ n₂) (h' : Keeps n₂ n₃) :
    Keeps n₁ n₃ where
  sequent_eq := by rw [h'.sequent_eq, h.sequent_eq]
  rule?_eq hk := h'.rule?_eq (h.rule?_eq hk)
  premises_eq hk := by rw [h'.premises_eq (h.rule?_eq hk), h.premises_eq hk]

/-- A node with a rule stays a node with that rule. -/
theorem Keeps.eq_node {s : Sequent} {k : Rule} {ds : List Derivation} {new : Derivation}
    (h : Keeps (node s k ds) new) : ∃ es, new = node s k es ∧ es.map sequent = ds.map sequent := by
  have hrule : new.rule? = some k := h.rule?_eq rfl
  have hpremises := h.premises_eq (k := k) rfl
  cases new with
  | goal t => contradiction
  | node t k' es =>
      obtain rfl : t = s := h.sequent_eq
      obtain rfl : k' = k := Option.some.inj hrule
      exact ⟨es, rfl, hpremises⟩

theorem Grows.refl (d : Derivation) : Grows d d := fun _ n hat => ⟨n, hat, .refl n⟩

theorem Grows.trans {d₁ d₂ d₃ : Derivation} (h : Grows d₁ d₂) (h' : Grows d₂ d₃) :
    Grows d₁ d₃ := by
  intro path n₁ hat
  obtain ⟨n₂, hat₂, hkeeps₂⟩ := h path n₁ hat
  obtain ⟨n₃, hat₃, hkeeps₃⟩ := h' path n₂ hat₂
  exact ⟨n₃, hat₃, hkeeps₂.trans hkeeps₃⟩

/-- A node whose premises are replaced one by one grows with its premises. -/
theorem grows_set {s : Sequent} {k : Rule} {ds : List Derivation} {m : Nat} {d d' : Derivation}
    (hm : ds[m]? = some d) (hseq : d'.sequent = d.sequent) (h : Grows d d') :
    Grows (node s k ds) (node s k (ds.set m d')) := by
  intro path old hat
  cases path with
  | nil =>
      obtain rfl : node s k ds = old := Option.some.inj hat
      exact ⟨_, rfl, rfl, id, fun _ => map_sequent_set hm hseq⟩
  | cons i path =>
      obtain ⟨_, _, _, n, premise, heq, rfl, hn, hold⟩ := at?_cons_eq_some hat
      cases heq
      by_cases hmn : m = n
      · subst hmn
        obtain rfl : d = premise := Option.some.inj (hm.symm.trans hn)
        obtain ⟨new, hnew, hkeeps⟩ := h path old hold
        have hlt : m < ds.length := (List.getElem?_eq_some_iff.mp hm).1
        refine ⟨new, ?_, hkeeps⟩
        rw [at?_cons_of_premise (List.getElem?_set_self hlt), hnew]
      · refine ⟨old, ?_, .refl old⟩
        rw [at?_cons_of_premise ((List.getElem?_set_ne hmn).trans hn), hold]

/-- A derivation grows where a goal gives way to something with its sequent. -/
theorem grows_replace {d new : Derivation} {path : Path} {s : Sequent}
    (hat : d.at? path = some (goal s)) (hnew : new.sequent = s) :
    Grows d (d.replace new path) := by
  induction path generalizing d with
  | nil =>
      obtain rfl : d = goal s := Option.some.inj hat
      intro path old hold
      cases path with
      | nil =>
          obtain rfl : goal s = old := Option.some.inj hold
          exact ⟨new, rfl, hnew, nofun, nofun⟩
      | cons i path =>
          obtain ⟨_, _, _, _, _, heq, -⟩ := at?_cons_eq_some hold
          contradiction
  | cons i path ih =>
      obtain ⟨_, k, ds, m, premise, rfl, rfl, hm, hgoal⟩ := at?_cons_eq_some hat
      rw [replace_cons hm]
      exact grows_set hm (sequent_replace hgoal hnew) (ih hgoal)

/-- **Derivations grow along runs.** -/
theorem grows_run (d : Derivation) (as : List Action) : Grows d (d.run as) := by
  apply run_induction as (Grows.refl d)
  intro e path s r step he hat _
  exact he.trans (grows_replace hat rfl)

theorem run_append (d : Derivation) (as bs : List Action) :
    d.run (as ++ bs) = (d.run as).run bs := List.foldl_append

/-! ## All runs -/

/-- A node with a rule has the rule and the premises that a call gives for its
sequent. -/
theorem WellFormed.exists_call {s : Sequent} {k : Rule} {ds : List Derivation}
    (h : WellFormed (.node s k ds)) :
    ∃ call : Call, s.applyCall call = .ok ⟨k, ds.map sequent⟩ := by
  cases h with
  | node _ r _ _ hstep _ => exact ⟨r.call, Sequent.applyCall_call_eq_ok_iff.mpr hstep⟩

theorem WellFormed.length_premises {s : Sequent} {k : Rule} {ds : List Derivation}
    (h : WellFormed (.node s k ds)) : ds.length = k.arity := by
  cases h with
  | node _ r _ _ hstep _ =>
      have hlength := (Sequent.inference_of_step hstep).length_premises
      rwa [List.length_map] at hlength

/-- **Runs keep derivations well formed, and never take back a rule.**  After
any run from a goal the sequent at the root is that of the goal.  A node with
a rule has the rule and the premises, in order, that some call gives for its
sequent, as many as the arity of the rule; and however the run goes on, the
node stays at its path with its sequent, its rule and the sequents of its
premises. -/
theorem run_wellFormed (s : Sequent) (as : List Action) :
    ((goal s).run as).sequent = s ∧
    ∀ path q k ds, ((goal s).run as).at? path = some (node q k ds) →
      (∃ call : Call, q.applyCall call = .ok ⟨k, ds.map sequent⟩) ∧
      ds.length = k.arity ∧
      ∀ bs, ∃ es, ((goal s).run (as ++ bs)).at? path = some (node q k es) ∧
        es.map sequent = ds.map sequent := by
  refine ⟨sequent_run (goal s) as, fun path q k ds hat => ?_⟩
  have hnode : WellFormed (node q k ds) := (wellFormed_run (.goal s) as).of_at? hat
  refine ⟨hnode.exists_call, hnode.length_premises, fun bs => ?_⟩
  obtain ⟨new, hnew, hkeeps⟩ := grows_run ((goal s).run as) bs path _ hat
  obtain ⟨es, rfl, hes⟩ := hkeeps.eq_node
  rw [run_append]
  exact ⟨es, hnew, hes⟩

/-- The first step of a proof of `A -> A` stays the first step of the proof,
also when what follows fails. -/
theorem run_wellFormed_identity :
    let A : Formula := .var ⟨⟨'A', rfl⟩, []⟩
    let s : Sequent := ⟨[], .impl A A⟩
    let as : List Action := [.proveNext Request.implIntro.call]
    let bs : List Action := [.applyAt [0, 0] Request.intro.call, .proveNext Request.hypothesis.call]
    ((goal s).run as).at? [] = some (node s .implicationIntro [goal ⟨[A], A⟩]) ∧
      ∃ es, ((goal s).run (as ++ bs)).at? [] = some (node s .implicationIntro es) ∧
        es.map sequent = [⟨[A], A⟩] := by
  intro A s as bs
  have hat : ((goal s).run as).at? [] = some (node s .implicationIntro [goal ⟨[A], A⟩]) := rfl
  exact ⟨hat, ((run_wellFormed s as).2 [] s .implicationIntro _ hat).2.2 bs⟩

end Derivation

end Sequitur
