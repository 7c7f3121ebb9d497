import Sequitur.Proofs.Derivation.Growth
import Sequitur.Proofs.Logic.Soundness
import Sequitur.Proofs.Session.Reachable
import Sequitur.Proofs.Validity.Decision

/-!
# Sequitur.Proofs.Session.Verdict

The verdict that there is no proof, given in a session, against all that can
be done afterwards.

The rules are sound for Kripke models, of which valuations are a special case,
and the check decides truth under all valuations.  So the sequent of a node
without goals below it is classically valid, and a goal that is not can never
become such a node: it keeps its sequent for good.
-/

namespace Sequitur

/-! ## Nodes without goals -/

namespace Derivation

/-- A well-formed derivation without goals proves a classically valid sequent. -/
theorem WellFormed.isClassicallyValid {d : Derivation} (hd : WellFormed d)
    (h : d.isComplete = true) : d.sequent.IsClassicallyValid :=
  (hd.isValid h).isClassicallyValid

/-- A goal that is not classically valid is never without goals below it,
however the derivation goes on. -/
theorem WellFormed.isComplete_run_at {d : Derivation} {path : Path} {g : Sequent}
    (hd : WellFormed d) (hat : d.at? path = some (.goal g)) (hg : ¬ g.IsClassicallyValid)
    (as : List Action) :
    ∃ n, (d.run as).at? path = some n ∧ n.sequent = g ∧ n.isComplete = false := by
  obtain ⟨n, hn, hkeeps⟩ := grows_run d as path _ hat
  refine ⟨n, hn, hkeeps.sequent_eq, Bool.eq_false_iff.mpr fun hcomplete => hg ?_⟩
  have hvalid := ((wellFormed_run hd as).of_at? hn).isClassicallyValid hcomplete
  rwa [hkeeps.sequent_eq] at hvalid

end Derivation

/-! ## What the session says -/

/-- The wording shows that a verdict is not validity. -/
theorem Verdict.isValid_eq_false_of_message {v : Verdict} {shown : String}
    (h : (Outcome.verdict v).message =
      "not valid, countermodel:" ++ shown ++ " (there is no proof)") : v.isValid = false := by
  cases v with
  | invalid m => rfl
  | valid =>
      have hlist := congrArg String.toList h
      simp [Outcome.message, Verdict.message] at hlist

namespace Session

variable {s : Session}

theorem goal_of_nextGoal? {path : Path} {g : Sequent}
    (hnext : s.derivation.nextGoal? = some path)
    (hat : s.derivation.at? path = some (.goal g)) : s.goal = g := by
  rw [goal, hnext]
  simp only [hat, Derivation.sequent]

theorem goal_of_isComplete (h : s.derivation.isComplete = true) :
    s.goal = s.derivation.sequent := by
  rw [Derivation.isComplete, Option.isNone_iff_eq_none] at h
  rw [goal, h]

/-- What the check command answers: a verdict on the current goal, unless all
sequents have been seen. -/
theorem result_exec_check {canceled : Bool} {line : Text} {o : Outcome}
    (hline : line.trim = Text.ofString ":c") (h : (s.exec canceled line).result = .ok o) :
    o = .finished ∨ o = .verdict (s.goal.check s.options.solver) := by
  have hmeta : MetaCommand.isMeta (Text.ofString ":c") = true := rfl
  have hcommand : MetaCommand.ofText? (Text.ofString ":c") = some .check := by decide
  rw [exec, hline, execTrimmed, hmeta, hcommand] at h
  split at h
  · obtain rfl : Outcome.finished = o := Except.ok.inj h
    exact .inl rfl
  · simp only [if_true, execMeta, answer, Query.answer] at h
    split at h
    · contradiction
    · exact .inr (Except.ok.inj h).symm

/-- Where the check command says that there is no proof, the current goal is
not classically valid. -/
theorem not_isClassicallyValid_goal {canceled : Bool} {line : Text} {o : Outcome} {shown : String}
    (hline : line.trim = Text.ofString ":c") (h : (s.exec canceled line).result = .ok o)
    (hmessage : o.message = "not valid, countermodel:" ++ shown ++ " (there is no proof)") :
    ¬ s.goal.IsClassicallyValid := by
  rcases result_exec_check hline h with rfl | rfl
  · have hlist := congrArg String.toList hmessage
    simp [Outcome.message] at hlist
  · have hfalse := Verdict.isValid_eq_false_of_message hmessage
    rw [← (s.goal.decides_check s.options.solver).isValid_iff, hfalse]
    exact Bool.false_ne_true

/-- **The verdict that there is no proof is never wrong.**  Where a session
answers the check command with it, there is a goal, and whatever rules are
applied to the derivation afterwards, wherever and however many, there is
still a goal at or below that place.  On the other hand the check finds the
sequent of every node valid that a run has left without goals at or below
it.  Neither depends on the solver. -/
theorem no_proof_of_check :
    (∀ s : Session, s.Reachable → ∀ canceled line o shown,
      line.trim = Text.ofString ":c" → (s.exec canceled line).result = .ok o →
      o.message = "not valid, countermodel:" ++ shown ++ " (there is no proof)" →
      ∃ path, s.derivation.nextGoal? = some path ∧
        s.derivation.at? path = some (.goal s.goal) ∧
        ∀ as, ∃ n, (s.derivation.run as).at? path = some n ∧ n.sequent = s.goal ∧
          n.isComplete = false) ∧
    ∀ (q : Sequent) (as : List Derivation.Action) (path : Path) (n : Derivation),
      ((Derivation.goal q).run as).at? path = some n → n.isComplete = true →
      ∀ solver : Solver, (n.sequent.check solver).isValid = true := by
  constructor
  · intro s hs canceled line o shown hline hresult hmessage
    have hwf : s.derivation.WellFormed := hs.all_wellFormed.present
    have hinvalid := not_isClassicallyValid_goal hline hresult hmessage
    cases hnext : s.derivation.nextGoal? with
    | none =>
        have hcomplete : s.derivation.isComplete = true := Option.isNone_iff_eq_none.mpr hnext
        rw [goal_of_isComplete hcomplete] at hinvalid
        exact absurd (hwf.isClassicallyValid hcomplete) hinvalid
    | some path =>
        obtain ⟨g, hat⟩ := Derivation.exists_goal_of_nextGoal? hnext
        rw [goal_of_nextGoal? hnext hat] at hinvalid ⊢
        exact ⟨path, rfl, hat, hwf.isComplete_run_at hat hinvalid⟩
  · intro q as path n hat hcomplete solver
    have hn : n.WellFormed := (Derivation.wellFormed_run (.goal q) as).of_at? hat
    exact (n.sequent.decides_check solver).isValid_iff.mpr (hn.isClassicallyValid hcomplete)

/-- In a session on a conjunction, of which one half has been proved and the other does not
follow: the goal that is left stays unproved, and the half that has been proved is
found valid. -/
theorem no_proof_of_check_half :
    let a : Name := ⟨⟨'A', rfl⟩, []⟩
    let b : Name := ⟨⟨'B', rfl⟩, []⟩
    let q : Sequent := ⟨[.var a], .conj (.var a) (.var b)⟩
    let start : Session := ⟨[q], 0, .start (.goal q), { display := { style := .default } }⟩
    let s := start.run [⟨false, Text.ofString "ci"⟩, ⟨false, Text.ofString "h"⟩]
    let proved : Derivation := .node ⟨[.var a], .var a⟩ .hypothesis []
    ((s.exec false (Text.ofString " :c")).result =
        .ok (.verdict (.invalid [(a, true), (b, false)])) ∧
      ∀ as, ∃ n, (s.derivation.run as).at? [1] = some n ∧ n.sequent = ⟨[.var a], .var b⟩ ∧
        n.isComplete = false) ∧
    s.derivation.at? [0] = some proved ∧ proved.isComplete = true ∧
      ∀ solver : Solver, (proved.sequent.check solver).isValid = true := by
  intro a b q start s proved
  have hreachable : s.Reachable := ⟨[q], _, start, _, _, rfl, rfl⟩
  have hresult : (s.exec false (Text.ofString " :c")).result =
      .ok (.verdict (.invalid [(a, true), (b, false)])) := by decide +kernel
  obtain ⟨path, hpath, hat, hall⟩ := no_proof_of_check.1 s hreachable false
    (Text.ofString " :c") _ " A=true B=false" (by decide) hresult (by decide +kernel)
  obtain rfl : [1] = path := Option.some.inj hpath
  have hgoal : s.goal = ⟨[.var a], .var b⟩ := rfl
  rw [hgoal] at hall
  exact ⟨⟨hresult, hall⟩, rfl, rfl, no_proof_of_check.2 q
    [.proveNext Request.conjIntro.call, .proveNext Request.hypothesis.call] [0] proved rfl rfl⟩

end Session

end Sequitur
