import Mathlib.Data.List.Basic
import Sequitur.Proofs.Session.Reachable

/-!
# Sequitur.Proofs.Session.Reaction

How a session reacts to a line: what becomes of the session together with
what is answered.  `Reaction` lists the possibilities, each with the condition
on the line that it comes from, and `reaction_exec` is the only place where
the execution of a line is opened for it.

A line passes over the current sequent if it asks to skip it, or if it is no
meta command and the derivation is complete (`Passes`).  Any other line leaves
the session at its sequent.

The first thing to read off is that refusals and mere answers leave everything
as it is (`exec_keeps`).
-/

namespace Sequitur

namespace Session

variable {s s' : Session} {line : Text} {result : Except SessionError Outcome}

/-! ## Reactions -/

/-- Whether a line passes over the current sequent. -/
def Passes (s : Session) (line : Text) : Prop :=
  line = Text.ofString ":s" ∨ (s.derivation.isComplete = true ∧ MetaCommand.isMeta line = false)

/-- What becomes of a session and what is answered when it is given a line
without blanks at its ends. -/
inductive Reaction (s : Session) (line : Text) : Session → Except SessionError Outcome → Prop where
  /-- All sequents have been seen. -/
  | ended (hdone : s.isDone = true) :
      Reaction s line s (.ok (if line = Text.ofString ":q" then .quit else .finished))
  /-- The session has moved on. -/
  | passed (hopen : s.isDone = false) (hpass : s.Passes line) (skipped : Bool) :
      Reaction s line (s.advance skipped).session (s.advance skipped).result
  | refused (hopen : s.isDone = false) (hstay : ¬ s.Passes line) (e : SessionError) :
      Reaction s line s (.error e)
  /-- A question has been answered, or the user wants to leave. -/
  | told (hopen : s.isDone = false) (hstay : ¬ s.Passes line) {o : Outcome}
      (ho : o.kind = .message ∨ o.kind = .help ∨ o.kind = .quit) : Reaction s line s (.ok o)
  | styled (hopen : s.isDone = false) (hstay : ¬ s.Passes line) (st : Style) {o : Outcome}
      (ho : o.kind = .styled) : Reaction s line (s.setStyle st) (.ok o)
  /-- Steps have been undone or redone. -/
  | moved (hopen : s.isDone = false) (hstay : ¬ s.Passes line)
      (hmeta : MetaCommand.isMeta line = true) (h : History Derivation) :
      Reaction s line { s with history := h } (.ok .moved)
  /-- A request has been applied to the first goal. -/
  | proved (hopen : s.isDone = false) (hstay : ¬ s.Passes line) {r : Request} {d : Derivation}
      (hr : Request.parse line = .ok r) (hd : s.derivation.proveNext r = .ok d) :
      Reaction s line { s with history := s.history.push d }
        (.ok (if d.isComplete then .solved else .applied))

/-! ## Meta commands -/

theorem text_of_ofText? {m : MetaCommand} (h : MetaCommand.ofText? line = some m) :
    line = Text.ofString m.name := by
  have hm := List.find?_some h
  exact (of_decide_eq_true hm).symm

/-- The texts of all meta commands are recognized. -/
theorem ofText?_name (m : MetaCommand) :
    MetaCommand.ofText? (Text.ofString m.name) = some m := by
  cases m <;> decide

/-- A line with the text of a meta command executes it. -/
theorem exec_meta {m : MetaCommand} (hopen : s.isDone = false)
    (hline : line.trim = Text.ofString m.name) (canceled : Bool) :
    s.exec canceled line = s.execMeta canceled m := by
  have hmeta : MetaCommand.isMeta (Text.ofString m.name) = true := by cases m <;> rfl
  rw [exec, hline, execTrimmed, hmeta, ofText?_name, hopen]
  rfl

/-- Once all sequents have been seen, lines are not looked at but for one. -/
theorem exec_of_isDone (hdone : s.isDone = true) (canceled : Bool) (line : Text) :
    s.exec canceled line =
      s.accept (if MetaCommand.ofText? line.trim = some .quit then .quit else .finished) := by
  rw [exec, execTrimmed, if_pos hdone]

/-- A meta command stays at its sequent unless it skips. -/
theorem not_passes_of_isMeta (hmeta : MetaCommand.isMeta line = true)
    (hskip : MetaCommand.ofText? line ≠ some .skip) : ¬ s.Passes line := by
  rintro (rfl | ⟨-, hnot⟩)
  · exact hskip (ofText?_name .skip)
  · rw [hmeta] at hnot
    contradiction

theorem passes_skip (h : MetaCommand.ofText? line = some .skip) : s.Passes line :=
  .inl (text_of_ofText? h)

/-- A query that is answered is answered by a message. -/
theorem kind_answer {solver : Solver} {source : CandidateSource} {stop : Option Interruption}
    {goal : Sequent} {q : Query} {o : Outcome} (h : q.answer solver source stop goal = .ok o) :
    o.kind = .message := by
  cases q with
  | check =>
      simp only [Query.answer] at h
      split at h
      · contradiction
      · obtain rfl := Except.ok.inj h
        rfl
  | needed =>
      simp only [Query.answer] at h
      split at h
      · contradiction
      · split at h
        · contradiction
        · obtain rfl := Except.ok.inj h
          rfl

theorem reaction_answer (hopen : s.isDone = false) (hstay : ¬ s.Passes line) (canceled : Bool)
    (q : Query) : s.Reaction line s (s.answer canceled q) := by
  cases h : s.answer canceled q with
  | error e => exact .refused hopen hstay e
  | ok o => exact .told hopen hstay (.inl (kind_answer h))

theorem reaction_execMeta (hopen : s.isDone = false) (hmeta : MetaCommand.isMeta line = true)
    {m : MetaCommand} (hm : MetaCommand.ofText? line = some m) (canceled : Bool) :
    s.Reaction line (s.execMeta canceled m).session (s.execMeta canceled m).result := by
  have hstay : m ≠ .skip → ¬ s.Passes line := by
    intro hne
    apply not_passes_of_isMeta hmeta
    rw [hm]
    exact fun h => hne (Option.some.inj h)
  cases m with
  | back =>
      rw [execMeta]
      split
      · exact .refused hopen (hstay (by decide)) _
      · exact .moved hopen (hstay (by decide)) hmeta _
  | forward =>
      rw [execMeta]
      split
      · exact .refused hopen (hstay (by decide)) _
      · exact .moved hopen (hstay (by decide)) hmeta _
  | reset => exact .moved hopen (hstay (by decide)) hmeta _
  | skip => exact .passed hopen (passes_skip hm) true
  | help => exact .told hopen (hstay (by decide)) (.inr (.inl rfl))
  | negation => exact .styled hopen (hstay (by decide)) _ rfl
  | unicode => exact .styled hopen (hstay (by decide)) _ rfl
  | check => exact reaction_answer hopen (hstay (by decide)) canceled .check
  | needed => exact reaction_answer hopen (hstay (by decide)) canceled .needed
  | quit => exact .told hopen (hstay (by decide)) (.inr (.inr rfl))

/-! ## Lines -/

theorem reaction_execRequest (hopen : s.isDone = false) (hstay : ¬ s.Passes line) :
    s.Reaction line (s.execRequest line).session (s.execRequest line).result := by
  rw [execRequest]
  split
  · exact .refused hopen hstay _
  · next r hr =>
      rw [applyRequest]
      split
      · exact .refused hopen hstay _
      · next d hd =>
          have hproved := Reaction.proved hopen hstay hr hd
          cases hcomplete : d.isComplete with
          | true => simpa [hcomplete] using hproved
          | false => simpa [hcomplete] using hproved

/-- **Executing a line is one of the reactions** to it without the blanks at
its ends. -/
theorem reaction_exec (s : Session) (canceled : Bool) (line : Text) :
    s.Reaction line.trim (s.exec canceled line).session (s.exec canceled line).result := by
  rw [exec, execTrimmed]
  split
  · next hdone =>
      have hquit : MetaCommand.ofText? line.trim = some .quit ↔
          line.trim = Text.ofString ":q" :=
        ⟨text_of_ofText?, fun h => h ▸ ofText?_name .quit⟩
      simp only [hquit]
      exact .ended hdone
  · next hdone =>
      have hopen : s.isDone = false := Bool.eq_false_iff.mpr hdone
      split
      · next hmeta =>
          split
          · next hunknown =>
              refine .refused hopen (not_passes_of_isMeta hmeta ?_) _
              rw [hunknown]
              exact (Option.some_ne_none _).symm
          · next m hm => exact reaction_execMeta hopen hmeta hm canceled
      · next hmeta =>
          have hno : MetaCommand.isMeta line.trim = false := Bool.eq_false_iff.mpr hmeta
          split
          · next hcomplete => exact .passed hopen (.inr ⟨hcomplete, hno⟩) false
          · next hcomplete =>
              have hstay : ¬ s.Passes line.trim := by
                rintro (hskip | ⟨hyes, -⟩)
                · rw [hskip] at hno
                  contradiction
                · exact hcomplete hyes
              split
              · exact .refused hopen hstay _
              · exact reaction_execRequest hopen hstay

/-! ## What changes nothing -/

/-- The outcome of moving on says that the next sequent has come, or that
there is none. -/
theorem result_advance (s : Session) (skipped : Bool) :
    (s.advance skipped).result = .ok .finished ∨
      (s.advance skipped).result = .ok (.next skipped) := by
  rw [advance]
  split
  · exact .inl rfl
  · exact .inr rfl

theorem Reaction.eq_of_error {e : SessionError} (h : s.Reaction line s' (.error e)) : s' = s := by
  generalize hresult : Except.error e = result at h
  cases h with
  | refused _ _ _ => rfl
  | passed _ _ skipped =>
      rcases result_advance s skipped with hadvance | hadvance <;>
        · rw [hadvance] at hresult
          contradiction
  | ended _ | told _ _ _ | styled _ _ _ _ | moved _ _ _ _ | proved _ _ _ _ => contradiction

theorem Reaction.eq_of_kind {o : Outcome} (h : s.Reaction line s' (.ok o))
    (ho : o.kind = .message ∨ o.kind = .help ∨ o.kind = .quit) : s' = s := by
  generalize hresult : Except.ok o = result at h
  cases h with
  | ended _ | refused _ _ _ | told _ _ _ => rfl
  | passed _ _ skipped =>
      rcases result_advance s skipped with hadvance | hadvance <;>
        · rw [hadvance] at hresult
          obtain rfl := Except.ok.inj hresult
          simp [Outcome.kind] at ho
  | styled _ _ st hst =>
      obtain rfl := Except.ok.inj hresult
      simp [hst] at ho
  | moved _ _ _ h =>
      obtain rfl := Except.ok.inj hresult
      simp [Outcome.kind] at ho
  | proved _ _ _ _ =>
      obtain rfl := Except.ok.inj hresult
      split at ho <;> simp [Outcome.kind] at ho

/-- **A failed input changes nothing.**  If executing a line gives an error,
canceled or not, the session is what it was before, and so it is if the
outcome is a message, the usage or the wish to leave. -/
theorem exec_keeps (s : Session) (canceled : Bool) (line : Text) :
    (∀ e, (s.exec canceled line).result = .error e → (s.exec canceled line).session = s) ∧
    ∀ o, (s.exec canceled line).result = .ok o →
      o.kind = .message ∨ o.kind = .help ∨ o.kind = .quit → (s.exec canceled line).session = s := by
  have hreaction := reaction_exec s canceled line
  constructor
  · intro e he
    rw [he] at hreaction
    exact hreaction.eq_of_error
  · intro o ho hkind
    rw [ho] at hreaction
    exact hreaction.eq_of_kind hkind

/-- In the middle of a proof, with a step before and a step undone, neither a
rule that does not fit nor a canceled question nor the usage changes anything. -/
theorem exec_keeps_undone :
    let A : Formula := .var ⟨⟨'A', rfl⟩, []⟩
    let q : Sequent := ⟨[], .impl A A⟩
    let s : Session := run ⟨[q], 0, .start (.goal q), { display := { style := .default } }⟩
      [⟨false, Text.ofString "ii"⟩, ⟨false, Text.ofString "h"⟩, ⟨false, Text.ofString ":b"⟩]
    (s.history.past.length = 1 ∧ s.history.future.length = 1) ∧
    ((s.exec false (Text.ofString "ci")).result =
        .error (.derivation (.refused ⟨.conjIntro, .notConjunction⟩)) ∧
      (s.exec false (Text.ofString "ci")).session = s) ∧
    ((s.exec true (Text.ofString ":w ")).result = .error (.neededStopped .canceled) ∧
      (s.exec true (Text.ofString ":w ")).session = s) ∧
    ((s.exec false (Text.ofString ":h")).result = .ok .help ∧
      (s.exec false (Text.ofString ":h")).session = s) := by
  intro A q s
  have hci : (s.exec false (Text.ofString "ci")).result =
      .error (.derivation (.refused ⟨.conjIntro, .notConjunction⟩)) := by decide +kernel
  have hw : (s.exec true (Text.ofString ":w ")).result = .error (.neededStopped .canceled) := by
    decide +kernel
  have hh : (s.exec false (Text.ofString ":h")).result = .ok .help := by decide +kernel
  refine ⟨by decide +kernel, ⟨hci, ?_⟩, ⟨hw, ?_⟩, ⟨hh, ?_⟩⟩
  · exact (exec_keeps s false _).1 _ hci
  · exact (exec_keeps s true _).1 _ hw
  · exact (exec_keeps s false _).2 _ hh (.inr (.inl rfl))

end Session

end Sequitur
