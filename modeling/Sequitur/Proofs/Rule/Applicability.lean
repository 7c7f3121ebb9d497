import Sequitur.Proofs.Derivation.Frame
import Sequitur.Proofs.Rule.RoundTrip

/-!
# Sequitur.Proofs.Rule.Applicability

When a call is answered by a step, and when by an error.

A call is a request if it has the arguments that its command takes, and they
are counted before anything else (`check_eq_error_iff`).  A request fails exactly
where its precondition does (`step_eq_error_iff`); what the preconditions are is
said by `Refuses`, rule by rule and without the steps.

That arguments are counted first is what keeps the rest from harm.
`applyUnguarded?` goes through a call without looking where it steps: it reads
arguments by their places, cuts the hypotheses at a position, and insists on the
number of premises of a rule and on an implication being among the hypotheses it
was found in.  If one of these were to fail it would have no answer, but it
always has one, the answer of `applyCall` (`applyUnguarded?_eq_some`).
-/

namespace Sequitur

/-! ## The number of arguments -/

/-- Whether a command takes this many positions. -/
def Command.TakesPositions (c : Command) (n : Nat) : Prop := c = .weaken ∨ n = c.positionCount

instance (c : Command) (n : Nat) : Decidable (c.TakesPositions n) :=
  inferInstanceAs (Decidable (_ ∨ _))

namespace Call

/-- What is wrong with a call, if its command is unknown or takes other numbers
of arguments. -/
def miscount? (call : Call) : Option RequestError :=
  match Command.ofNumber? call.number with
  | none => some ⟨[], .unknownNumber call.number⟩
  | some c =>
    if call.formulas.length ≠ c.formulaCount then
      some ⟨Text.ofString c.name, .formulaCount c call.formulas.length⟩
    else if c.TakesPositions call.positions.length then none
    else some ⟨Text.ofString c.name, .positionCount c call.positions.length⟩

/-- A request has as many arguments as its command takes. -/
theorem counts_of_request? {c : Command} {ps : List Formula} {is : List Int} {r : Request}
    (h : request? c ps is = some r) :
    ps.length = c.formulaCount ∧ c.TakesPositions is.length := by
  obtain ⟨rfl, rfl, rfl⟩ := of_request?_eq_some h
  cases r with
  | weaken is => exact ⟨rfl, .inl rfl⟩
  | _ => exact ⟨rfl, .inr rfl⟩

/-- As many arguments as a command takes make a request. -/
theorem exists_request? {c : Command} {ps : List Formula} {is : List Int}
    (hps : ps.length = c.formulaCount) (his : c.TakesPositions is.length) :
    ∃ r, request? c ps is = some r := by
  cases c
  case elim =>
    obtain rfl := List.length_eq_zero_iff.mp hps
    obtain ⟨i, rfl⟩ := List.length_eq_one_iff.mp (his.resolve_left (by decide))
    exact ⟨.elim i, rfl⟩
  case modusPonens =>
    obtain ⟨b, rfl⟩ := List.length_eq_one_iff.mp hps
    obtain rfl := List.length_eq_zero_iff.mp (his.resolve_left (by decide))
    exact ⟨.modusPonens b, rfl⟩
  case disjElim =>
    obtain ⟨a, b, rfl⟩ := List.length_eq_two.mp hps
    obtain rfl := List.length_eq_zero_iff.mp (his.resolve_left (by decide))
    exact ⟨.disjElim a b, rfl⟩
  case conjElim =>
    obtain ⟨a, b, rfl⟩ := List.length_eq_two.mp hps
    obtain rfl := List.length_eq_zero_iff.mp (his.resolve_left (by decide))
    exact ⟨.conjElim a b, rfl⟩
  case weaken =>
    obtain rfl := List.length_eq_zero_iff.mp hps
    exact ⟨.weaken is, rfl⟩
  all_goals
    obtain rfl := List.length_eq_zero_iff.mp hps
    obtain rfl := List.length_eq_zero_iff.mp (his.resolve_left (by decide))
    exact ⟨_, rfl⟩

/-- **A call is refused for its arguments exactly if they are miscounted.** -/
theorem check_eq_error_iff {call : Call} {e : RequestError} :
    call.check = .error e ↔ call.miscount? = some e := by
  unfold check miscount?
  cases Command.ofNumber? call.number with
  | none => simp
  | some c =>
      cases hr : request? c call.formulas call.positions with
      | some r =>
          obtain ⟨hps, his⟩ := counts_of_request? hr
          simp [hr, hps, his]
      | none =>
          by_cases hps : call.formulas.length = c.formulaCount
          · have his : ¬ c.TakesPositions call.positions.length := by
              intro his
              obtain ⟨r, hsome⟩ := exists_request? hps his
              rw [hr] at hsome
              contradiction
            simp [hr, hps, his]
          · simp [hr, hps]

end Call

/-! ## Preconditions -/

namespace Sequent

/-- Whether there is a hypothesis at a position. -/
def HasPosition (s : Sequent) (i : Int) : Prop := 0 ≤ i ∧ i < s.hyps.length

instance (s : Sequent) (i : Int) : Decidable (s.HasPosition i) :=
  inferInstanceAs (Decidable (_ ∧ _))

/-- When a request does not fit a sequent. -/
def Refuses (s : Sequent) : Request → Prop
  | .hypothesis => s.concl ∉ s.hyps
  | .intro => ∀ l r, s.concl ≠ .equiv l r ∧ s.concl ≠ .conj l r ∧ s.concl ≠ .impl l r
  | .implIntro => ∀ l r, s.concl ≠ .impl l r
  | .disjIntroLeft | .disjIntroRight => ∀ l r, s.concl ≠ .disj l r
  | .conjIntro => ∀ l r, s.concl ≠ .conj l r
  | .elim i =>
    ¬ s.HasPosition i ∨ (∃ x, s.hyp? i = some (.var x)) ∨ s.hyp? i = some .falsity ∨
      ∃ l r, s.hyp? i = some (.impl l r) ∧ r ≠ s.concl
  | .weaken is => is = [] ∨ ∃ i ∈ is, ¬ s.HasPosition i
  | .implIntros | .modusPonens _ | .disjElim _ _ | .conjElim _ _ | .exfalso => False

variable {s : Sequent}

theorem isSome_hyp?_iff {i : Int} : (s.hyp? i).isSome ↔ s.HasPosition i := by
  cases i with
  | ofNat n => simp [hyp?, nth?, HasPosition]
  | negSucc n => simp [hyp?, nth?, HasPosition]

theorem hyp?_eq_none_iff {i : Int} : s.hyp? i = none ↔ ¬ s.HasPosition i := by
  rw [← isSome_hyp?_iff, Option.not_isSome_iff_eq_none]

theorem elim_eq_error_iff {i : Int} :
    (∃ reason, s.elim i = .error reason) ↔
      ¬ s.HasPosition i ∨ (∃ x, s.hyp? i = some (.var x)) ∨ s.hyp? i = some .falsity ∨
        ∃ l r, s.hyp? i = some (.impl l r) ∧ r ≠ s.concl := by
  rw [← hyp?_eq_none_iff, elim]
  cases hhyp : s.hyp? i with
  | none => simp
  | some h =>
      cases h with
      | falsity => simp
      | var x => simp
      | bin c l r =>
          cases c with
          | impl => by_cases hr : r = s.concl <;> simp [hr]
          | _ => simp

theorem weaken_eq_error_iff {is : List Int} :
    (∃ reason, s.weaken is = .error reason) ↔ is = [] ∨ ∃ i ∈ is, ¬ s.HasPosition i := by
  have hall : (is.all fun i => (s.hyp? i).isSome) = true ↔ ¬ ∃ i ∈ is, ¬ s.HasPosition i := by
    simp [isSome_hyp?_iff]
  rw [weaken]
  by_cases hnil : is = []
  · simp [hnil]
  · by_cases hout : ∃ i ∈ is, ¬ s.HasPosition i
    · rw [if_neg (by simpa using hnil), if_neg fun h => hall.mp h hout]
      exact iff_of_true ⟨_, rfl⟩ (.inr hout)
    · rw [if_neg (by simpa using hnil), if_pos (hall.mpr hout)]
      simp [hnil, hout]

/-- **A request fails exactly where its precondition does.** -/
theorem step_eq_error_iff {r : Request} : (∃ reason, s.step r = .error reason) ↔ s.Refuses r := by
  cases r with
  | hypothesis => by_cases h : s.concl ∈ s.hyps <;> simp [step, Refuses, byHypothesis, h]
  | elim i => exact elim_eq_error_iff
  | weaken is => exact weaken_eq_error_iff
  | intro | implIntro | disjIntroLeft | disjIntroRight | conjIntro =>
      -- introductions look at the connective of the conclusion, and at nothing else
      cases hconcl : s.concl with
      | bin c l r =>
          cases c <;>
            simp [step, Refuses, intro, implIntro, disjIntroLeft, disjIntroRight, conjIntro, hconcl]
      | _ =>
          simp [step, Refuses, intro, implIntro, disjIntroLeft, disjIntroRight, conjIntro, hconcl]
  | _ => simp [step, Refuses]

end Sequent

/-! ## Calls without a net -/

/-- The request that a command makes of the arguments it reads, each by its
place.  Nobody has counted them. -/
def Command.read? (ps : List Formula) (is : List Int) : Command → Option Request
  | .hypothesis => some .hypothesis
  | .intro => some .intro
  | .implIntro => some .implIntro
  | .implIntros => some .implIntros
  | .elim => is[0]?.map .elim
  | .modusPonens => ps[0]?.map .modusPonens
  | .disjIntroLeft => some .disjIntroLeft
  | .disjIntroRight => some .disjIntroRight
  | .disjElim => ps[0]?.bind fun a => ps[1]?.map fun b => .disjElim a b
  | .conjIntro => some .conjIntro
  | .conjElim => ps[0]?.bind fun a => ps[1]?.map fun b => .conjElim a b
  | .exfalso => some .exfalso
  | .weaken => some (.weaken is)

namespace Sequent

/-- Insists on a step having as many premises as its rule. -/
def assertArity? : Except Reason Step → Option (Except Reason Step)
  | .error reason => some (.error reason)
  | .ok step => if step.premises.length = step.rule.arity then some (.ok step) else none

/-- Eliminates the hypothesis at a position.  Of the two premises of modus ponens
the one that is left out is closed by the hypothesis rule, and a hypothesis is
replaced by cutting the list at the position, which must be within it. -/
def elimUnguarded? (s : Sequent) (i : Int) : Option (Except Reason Step) :=
  match s.hyp? i with
  | some (.impl l r) =>
    if r = s.concl then
      match assertArity? (byHypothesis ⟨s.hyps, .impl l r⟩) with
      | none => none
      | some (.error _) => some (.error .hypothesisNotFound)
      | some (.ok _) => assertArity? (.ok ⟨.weakModusPonens, [⟨s.hyps, l⟩]⟩)
    else some (.error .consequentMismatch)
  | some (.bin _ _ _) => if s.HasPosition i then assertArity? (s.elim i) else none
  | _ => assertArity? (s.elim i)

/-- Applies a request. -/
def stepUnguarded? (s : Sequent) : Request → Option (Except Reason Step)
  | .elim i => s.elimUnguarded? i
  | r => assertArity? (s.step r)

/-- Applies a call once its arguments have been counted.  There is no answer if
there is no such command, an argument is not there or something is insisted on
in vain. -/
def applyUnguarded? (s : Sequent) (call : Call) : Option (Except CallError Step) :=
  match call.miscount? with
  | some e => some (.error (.request e))
  | none =>
    (Command.ofNumber? call.number).bind fun c =>
      (c.read? call.formulas call.positions).bind fun r =>
        (s.stepUnguarded? r).map (Except.mapError fun reason => .notApplicable ⟨r, reason⟩)

variable {s : Sequent}

/-- Counting arguments lets through only calls whose command reads what is there. -/
theorem read?_of_check {call : Call} {r : Request} (h : call.check = .ok r) :
    Command.ofNumber? call.number = some r.command ∧
      r.command.read? call.formulas call.positions = some r := by
  obtain rfl := Call.call_of_check h
  cases r <;> exact ⟨rfl, rfl⟩

theorem assertArity?_step (s : Sequent) (r : Request) :
    assertArity? (s.step r) = some (s.step r) := by
  cases hstep : s.step r with
  | error reason => rfl
  | ok step => rw [assertArity?, if_pos (inference_of_step hstep).length_premises]

/-- A hypothesis closes the sequent of which it is the conclusion. -/
theorem byHypothesis_of_hyp? {i : Int} {h : Formula} (hi : s.hyp? i = some h) :
    byHypothesis ⟨s.hyps, h⟩ = .ok ⟨.hypothesis, []⟩ := by
  obtain ⟨before, after, hhyps, -⟩ := hyp?_eq_some hi
  have hmem : h ∈ s.hyps := by simp [hhyps]
  rw [byHypothesis, if_pos hmem]

theorem elimUnguarded?_eq_some (s : Sequent) (i : Int) : s.elimUnguarded? i = some (s.elim i) := by
  have hstep : assertArity? (s.elim i) = some (s.elim i) := assertArity?_step s (.elim i)
  rw [elimUnguarded?]
  split
  · next l r hi =>
      rw [byHypothesis_of_hyp? hi]
      by_cases hr : r = s.concl
      · simp [elim, hi, hr, assertArity?, Rule.arity]
      · simp [elim, hi, hr]
  · next hi =>
      have hposition : s.HasPosition i := isSome_hyp?_iff.mp (by simp [hi])
      rw [if_pos hposition, hstep]
  · exact hstep

theorem stepUnguarded?_eq_some (s : Sequent) (r : Request) :
    s.stepUnguarded? r = some (s.step r) := by
  cases r with
  | elim i => exact elimUnguarded?_eq_some s i
  | _ => simp only [stepUnguarded?, assertArity?_step]

/-- **There is always an answer**, and it is the answer of the call. -/
theorem applyUnguarded?_eq_some (s : Sequent) (call : Call) :
    s.applyUnguarded? call = some (s.applyCall call) := by
  rw [applyUnguarded?, applyCall]
  cases hcheck : call.check with
  | error e => rw [Call.check_eq_error_iff.mp hcheck]
  | ok r =>
      have hcount : call.miscount? = none := by
        rw [Option.eq_none_iff_forall_ne_some]
        intro e he
        rw [Call.check_eq_error_iff.mpr he] at hcheck
        contradiction
      obtain ⟨hcommand, hread⟩ := read?_of_check hcheck
      simp only [hcount, hcommand, hread, Option.bind_some, stepUnguarded?_eq_some, Option.map_some,
        apply]
      cases s.step r with
      | error reason => rfl
      | ok step => rfl

/-! ## Answers -/

variable {call : Call} {r : Request}

theorem applyCall_eq_request_iff {e : RequestError} :
    s.applyCall call = .error (.request e) ↔ call.miscount? = some e := by
  rw [← Call.check_eq_error_iff, applyCall]
  cases call.check with
  | error e' => simp
  | ok r => cases happly : s.apply r <;> simp [happly]

theorem applyCall_eq_notApplicable_iff {reason : Reason} :
    s.applyCall call = .error (.notApplicable ⟨r, reason⟩) ↔
      call = r.call ∧ s.step r = .error reason := by
  constructor
  · intro h
    cases hcheck : call.check with
    | error e => simp [applyCall, hcheck] at h
    | ok r' =>
        cases hstep : s.step r' with
        | ok step => simp [applyCall, hcheck, apply, hstep] at h
        | error reason' =>
            simp only [applyCall, hcheck, apply, hstep, Except.error.injEq,
              CallError.notApplicable.injEq, NotApplicable.mk.injEq] at h
            obtain ⟨rfl, rfl⟩ := h
            exact ⟨(Call.call_of_check hcheck).symm, hstep⟩
  · rintro ⟨rfl, hstep⟩
    simp [applyCall, Request.check_call, apply, hstep]

theorem applyCall_eq_ok_iff {step : Step} :
    s.applyCall call = .ok step ↔ ∃ r : Request, call = r.call ∧ s.step r = .ok step := by
  constructor
  · intro h
    cases hcheck : call.check with
    | error e => simp [applyCall, hcheck] at h
    | ok r =>
        obtain rfl := Call.call_of_check hcheck
        exact ⟨r, rfl, applyCall_call_eq_ok_iff.mp h⟩
  · rintro ⟨r, rfl, hstep⟩
    exact applyCall_call_eq_ok_iff.mpr hstep

/-- A request is applied exactly if nothing is wrong with it. -/
theorem exists_step_iff : (∃ step, s.step r = .ok step) ↔ ¬ s.Refuses r := by
  rw [← step_eq_error_iff]
  cases s.step r with
  | error reason => simp
  | ok step => simp

/-- **Every call is answered, and by the right kind of answer.**  Whatever the
number of the command and the arguments, going through the call unguarded ends in
its answer: nothing is read that is not there, no rule gets a wrong number of
premises, and an implication that is eliminated is found again among the
hypotheses.  The answer is that the call is no request exactly if its arguments
are miscounted, and that it does not apply exactly if it is a request whose
precondition fails.  Otherwise it is a step with as many premises as its rule. -/
theorem applyCall_answers (s : Sequent) (call : Call) :
    s.applyUnguarded? call = some (s.applyCall call) ∧
    (∀ e, s.applyCall call = .error (.request e) ↔ call.miscount? = some e) ∧
    (∀ r, (∃ reason, s.applyCall call = .error (.notApplicable ⟨r, reason⟩)) ↔
      call = r.call ∧ s.Refuses r) ∧
    ((∃ step, s.applyCall call = .ok step) ↔ ∃ r : Request, call = r.call ∧ ¬ s.Refuses r) ∧
    (∀ step, s.applyCall call = .ok step → step.premises.length = step.rule.arity) ∧
    ∀ i l r, s.hyp? i = some (.impl l r) →
      byHypothesis ⟨s.hyps, .impl l r⟩ = .ok ⟨.hypothesis, []⟩ := by
  refine ⟨applyUnguarded?_eq_some s call, fun e => applyCall_eq_request_iff, ?_, ?_, ?_, ?_⟩
  · intro r
    simp only [applyCall_eq_notApplicable_iff, exists_and_left, step_eq_error_iff]
  · simp only [applyCall_eq_ok_iff]
    rw [exists_comm]
    simp only [exists_and_left, exists_step_iff]
  · exact fun step => Derivation.length_premises_of_applyCall
  · exact fun i l r => byHypothesis_of_hyp?

/-- From `A -> B`, `A` follows `B` by eliminating the first hypothesis; the second
is a variable, there is no third, and an elimination takes one position. -/
theorem applyCall_answers_elim :
    let A : Formula := .var ⟨⟨'A', rfl⟩, []⟩
    let B : Formula := .var ⟨⟨'B', rfl⟩, []⟩
    let s : Sequent := ⟨[.impl A B, A], B⟩
    s.applyCall ⟨4, [], [0]⟩ = .ok ⟨.weakModusPonens, [⟨[.impl A B, A], A⟩]⟩ ∧
      [(⟨[.impl A B, A], A⟩ : Sequent)].length = Rule.weakModusPonens.arity ∧
      s.hyp? 0 = some (.impl A B) ∧
      byHypothesis ⟨[.impl A B, A], .impl A B⟩ = .ok ⟨.hypothesis, []⟩ ∧
      (∃ reason, s.applyCall ⟨4, [], [1]⟩ = .error (.notApplicable ⟨.elim 1, reason⟩)) ∧
      (∃ reason, s.applyCall ⟨4, [], [-2]⟩ = .error (.notApplicable ⟨.elim (-2), reason⟩)) ∧
      s.applyCall ⟨4, [], [0, 1]⟩ =
        .error (.request ⟨Text.ofString "e", .positionCount .elim 2⟩) := by
  intro A B s
  have happly : s.applyCall ⟨4, [], [0]⟩ = .ok ⟨.weakModusPonens, [⟨[.impl A B, A], A⟩]⟩ := rfl
  have hhyp : s.hyp? 0 = some (.impl A B) := rfl
  obtain ⟨-, -, -, -, harity, hrecheck⟩ := applyCall_answers s ⟨4, [], [0]⟩
  refine ⟨happly, harity _ happly, hhyp, hrecheck 0 A B hhyp, ?_, ?_, ?_⟩
  · exact ((applyCall_answers s ⟨4, [], [1]⟩).2.2.1 (.elim 1)).mpr ⟨rfl, .inr (.inl ⟨_, rfl⟩)⟩
  · exact ((applyCall_answers s ⟨4, [], [-2]⟩).2.2.1 (.elim (-2))).mpr ⟨rfl, .inl (by decide)⟩
  · exact ((applyCall_answers s ⟨4, [], [0, 1]⟩).2.1 _).mpr rfl

end Sequent

end Sequitur
