import Sequitur.Proofs.Logic.Soundness
import Sequitur.Proofs.Session.Reaction
import Sequitur.Proofs.Session.Timeline
import Sequitur.Proofs.Text.Blank

/-!
# Sequitur.Proofs.Session.Progress

How a session gets from one sequent to the next.  The index of the current
sequent goes up by one with each line that passes over the sequent, and stays
where it is otherwise (`Reaction.index_cases`).  A line that passes without
skipping finds a complete derivation of the current sequent, which is
therefore valid; so every sequent that a run leaves behind has been skipped
or is valid (`run_passed`).

A line is answered by the news that the sequent is solved if and only if it
is a request that completes the derivation (`Reaction.exists_request`,
`Reaction.eq_solved`).
-/

universe u

namespace Sequitur

/-! ## Lines that are no requests -/

/-- A meta command is no request. -/
theorem Request.parse_ne_ok_of_isMeta {line : Text} (h : MetaCommand.isMeta line = true)
    (r : Request) : Request.parse line ≠ .ok r := by
  have hcolon : ∃ rest, line = .char ':' :: rest := by
    unfold MetaCommand.isMeta at h
    split at h
    · exact ⟨_, rfl⟩
    · contradiction
  obtain ⟨rest, rfl⟩ := hcolon
  have hword : (Text.firstWord (.char ':' :: Text.trimRight rest)).1 =
      .char ':' :: (Text.firstWord (Text.trimRight rest)).1 := rfl
  have hname : Command.ofName? (Text.firstWord (.char ':' :: Text.trimRight rest)).1 = none := by
    rw [hword, Command.ofName?, List.find?_eq_none]
    intro c _
    cases c <;> simp [Command.name, Text.ofString]
  have htrim : Text.trim (.char ':' :: rest) = .char ':' :: Text.trimRight rest :=
    Text.trim_cons (by decide) rest
  simp [parse, htrim, parseTrimmed, hname]

namespace Session

variable {s s' s₀ : Session} {line : Text} {result : Except SessionError Outcome}

/-! ## The index -/

theorem index_advance (s : Session) (skipped : Bool) :
    (s.advance skipped).session.index = s.index + 1 := by
  rw [advance]
  split <;> rfl

/-- The index goes up by one where the sequent is passed, and nowhere else. -/
theorem Reaction.index_cases (h : s.Reaction line s' result) :
    (s.isDone = false ∧ s.Passes line ∧ s'.index = s.index + 1) ∨
      (¬ (s.isDone = false ∧ s.Passes line) ∧ s'.index = s.index) := by
  cases h with
  | ended hdone => exact .inr ⟨fun h => absurd h.1 (by simp [hdone]), rfl⟩
  | passed hopen hpass skipped => exact .inl ⟨hopen, hpass, index_advance s skipped⟩
  | refused _ hstay _ | told _ hstay _ | styled _ hstay _ _ | moved _ hstay _ _
  | proved _ hstay _ _ => exact .inr ⟨fun h => hstay h.2, rfl⟩

theorem Change.sequents_eq (h : s.Change s') : s'.sequents = s.sequents := by
  cases h <;> rfl

section

variable {sequents : List Sequent} {options : SessionOptions} {records : List LogRecord}

theorem sequents_of_start? (h : start? sequents options = some (s₀, records)) :
    s₀.sequents = sequents := by
  cases sequents with
  | nil => contradiction
  | cons q sequents => cases h; rfl

theorem index_of_start? (h : start? sequents options = some (s₀, records)) : s₀.index = 0 := by
  cases sequents with
  | nil => contradiction
  | cons q sequents => cases h; rfl

end

theorem sequents_after (s : Session) (i : Input) : (s.after i).sequents = s.sequents :=
  (change_exec s i.canceled i.line).sequents_eq

theorem run_concat (s : Session) (is : List Input) (i : Input) :
    s.run (is ++ [i]) = (s.run is).after i :=
  List.foldl_concat after s i is

/-- The session after lines that are executed one after the other. -/
def runLines (s : Session) (lines : List Text) : Session := s.run (lines.map fun l => ⟨false, l⟩)

theorem runLines_cons (s : Session) (line : Text) (lines : List Text) :
    s.runLines (line :: lines) = (s.exec false line).session.runLines lines := rfl

theorem runLines_concat (s : Session) (lines : List Text) (line : Text) :
    s.runLines (lines ++ [line]) = ((s.runLines lines).exec false line).session := by
  rw [runLines, List.map_append]
  exact run_concat s _ _

theorem sequents_run (s : Session) (is : List Input) : (s.run is).sequents = s.sequents := by
  induction is using List.reverseRecOn with
  | nil => rfl
  | append_singleton is i ih => rw [run_concat, sequents_after, ih]

/-- The index never goes beyond the number of sequents. -/
theorem Reachable.index_le (hs : s.Reachable) : s.index ≤ s.sequents.length := by
  apply hs.induction
  · intro q sequents options
    exact Nat.zero_le _
  · intro s s' hle hchange
    cases hchange with
    | none | styled _ | proved _ | undone _ | redone _ | reset => exact hle
    | next hopen _ | finished hopen _ =>
        rw [isDone, decide_eq_false_iff_not, Nat.not_le] at hopen
        exact hopen

/-! ## What is passed over -/

/-- Every state of the history has the current sequent at its root. -/
theorem Tracks.sequent_eq {q : Sequent} (h : s.Tracks q) : s.derivation.sequent = q := by
  apply h.linked.induction (P := fun _ d => d.sequent = q) _ _ s.history.timeline_steps
  · rw [h.root, Derivation.sequent]
  · rintro _ d d' ⟨r, hr⟩ hd
    obtain ⟨path, g, step, -, hat, -, rfl⟩ := Derivation.proveNext_eq_ok hr
    have hnew : (Derivation.ofStep g step).sequent = (Derivation.goal g).sequent := rfl
    rw [Derivation.sequent_replace hat hnew, hd]

/-- If the current derivation is complete, the current sequent is valid. -/
theorem Reachable.isValid_of_isComplete (hs : s.Reachable) (hopen : s.isDone = false)
    (hcomplete : s.derivation.isComplete = true) :
    ∀ q, s.sequents[s.index]? = some q → q.IsValid.{u} := by
  intro q hq
  obtain ⟨q', hq'⟩ := hs.exists_tracks hopen
  obtain rfl : q' = q := Option.some.inj (hq'.current.symm.trans hq)
  have hwf : s.derivation.WellFormed := hs.all_wellFormed.present
  have hvalid := hwf.isValid hcomplete
  rwa [hq'.sequent_eq] at hvalid

/-- What is passed over without being skipped is valid. -/
theorem Reachable.isValid_of_passes (hs : s.Reachable) (hopen : s.isDone = false)
    (hpass : s.Passes line) (hskip : line ≠ Text.ofString ":s") :
    ∀ q, s.sequents[s.index]? = some q → q.IsValid.{u} := by
  rcases hpass with rfl | ⟨hcomplete, -⟩
  · exact absurd rfl hskip
  · exact hs.isValid_of_isComplete hopen hcomplete

/-- Every sequent before the current one has been passed over by an input,
and has been skipped by it or is valid. -/
theorem run_passed {sequents : List Sequent} {options : SessionOptions}
    {records : List LogRecord} (hstart : start? sequents options = some (s₀, records))
    (is : List Input) {k : Nat} (hk : k < (s₀.run is).index) :
    ∃ before i after, is = before ++ i :: after ∧ (s₀.run before).index = k ∧
      (s₀.run (before ++ [i])).index = k + 1 ∧
      (i.line.trim = Text.ofString ":s" ∨ ∀ q, sequents[k]? = some q → q.IsValid.{u}) := by
  induction is using List.reverseRecOn with
  | nil =>
      rw [run, List.foldl_nil, index_of_start? hstart] at hk
      contradiction
  | append_singleton is i ih =>
      have hreachable : (s₀.run is).Reachable := ⟨_, _, _, _, is, hstart, rfl⟩
      have hcases := (reaction_exec (s₀.run is) i.canceled i.line).index_cases
      by_cases hearlier : k < (s₀.run is).index
      · obtain ⟨before, j, after, rfl, hj⟩ := ih hearlier
        exact ⟨before, j, after ++ [i], by simp, hj⟩
      · -- the last input is the one that has passed over the sequent
        rw [run_concat] at hk
        rcases hcases with ⟨hopen, hpass, hnext⟩ | ⟨-, hsame⟩
        · have hlt : k < (s₀.run is).index + 1 := hnext ▸ hk
          have hcurrent : (s₀.run is).index = k := by omega
          refine ⟨is, i, [], rfl, hcurrent, ?_, ?_⟩
          · rw [run_concat, ← hcurrent]
            exact hnext
          · by_cases hskip : i.line.trim = Text.ofString ":s"
            · exact .inl hskip
            · have hvalid := hreachable.isValid_of_passes hopen hpass hskip
              rw [sequents_run, sequents_of_start? hstart, hcurrent] at hvalid
              exact .inr hvalid
        · have hlt : k < (s₀.run is).index := hsame ▸ hk
          exact absurd hlt hearlier

/-! ## Solved sequents -/

/-- Where the sequent is said to be solved, the line was a request and has
made the derivation complete. -/
theorem Reaction.exists_request (h : s.Reaction line s' (.ok .solved)) :
    ∃ r, Request.parse line = .ok r ∧ s.derivation.isComplete = false ∧
      s.derivation.proveNext r = .ok s'.derivation ∧ s'.derivation.isComplete = true := by
  generalize hsolved : (Except.ok .solved : Except SessionError Outcome) = result at h
  cases h with
  | proved _ _ hr hd =>
      split at hsolved
      · next hcomplete =>
          have hleads : s.derivation.LeadsTo _ := ⟨_, hd⟩
          exact ⟨_, hr, hleads.isComplete_eq_false, hd, hcomplete⟩
      · simp at hsolved
  | ended _ => split at hsolved <;> simp at hsolved
  | passed _ _ skipped =>
      rcases result_advance s skipped with hadvance | hadvance <;> simp [hadvance] at hsolved
  | told _ _ ho | styled _ _ _ ho =>
      obtain rfl := Except.ok.inj hsolved
      simp [Outcome.kind] at ho
  | refused _ _ _ | moved _ _ _ _ => simp at hsolved

/-- A request that makes the derivation complete is answered by saying so. -/
theorem Reaction.eq_solved (h : s.Reaction line s' result) {r : Request}
    (hr : Request.parse line = .ok r) (hbefore : s.derivation.isComplete = false)
    (hafter : s'.derivation.isComplete = true) : result = .ok .solved := by
  cases h with
  | @proved _ _ _ d _ _ =>
      have hcomplete : d.isComplete = true := hafter
      rw [if_pos hcomplete]
  | passed _ hpass _ =>
      rcases hpass with rfl | ⟨hcomplete, -⟩
      · exact absurd hr (Request.parse_ne_ok_of_isMeta rfl r)
      · exact absurd (hbefore.symm.trans hcomplete) Bool.false_ne_true
  | moved _ _ hmeta _ => exact absurd hr (Request.parse_ne_ok_of_isMeta hmeta r)
  | ended _ | refused _ _ _ | told _ _ _ | styled _ _ _ _ =>
      -- the derivation is the same as before
      exact absurd (hbefore.symm.trans hafter) Bool.false_ne_true

/-- A session in which all sequents have been seen stays as it is. -/
theorem Reaction.eq_of_isDone (h : s.Reaction line s' result) (hdone : s.isDone = true) :
    s' = s ∧ result = .ok (if line = Text.ofString ":q" then .quit else .finished) := by
  cases h with
  | ended _ => exact ⟨rfl, rfl⟩
  | passed hopen _ _ | refused hopen _ _ | told hopen _ _ | styled hopen _ _ _
  | moved hopen _ _ _ | proved hopen _ _ _ =>
      exact absurd (hopen.symm.trans hdone) Bool.false_ne_true

/-! ## All runs -/

/-- **A session passes over what is proved or skipped, and nothing else.**
After any inputs, one more input `i` leaves the index of the current sequent
as it is or raises it by one, never beyond the number of sequents.  While the
session is not done, the index is raised if and only if the line asks for it
or is no meta command and the derivation is complete.  All sequents before the
current one have been skipped or are valid.  The line is answered by the news
that the sequent is solved if and only if it is a request that turns the
incomplete derivation into a complete one.  Once the session is done nothing
changes any more, and there are two answers left. -/
theorem run_passes {sequents : List Sequent} {options : SessionOptions}
    {records : List LogRecord} (hstart : start? sequents options = some (s₀, records))
    (is : List Input) (i : Input) :
    let s := s₀.run is
    let s' := s₀.run (is ++ [i])
    let result := (s.exec i.canceled i.line).result
    (s.index ≤ s'.index ∧ s'.index ≤ s.index + 1 ∧ s'.index ≤ sequents.length) ∧
    (s.isDone = false → (s'.index = s.index + 1 ↔ i.line.trim = Text.ofString ":s" ∨
      (s.derivation.isComplete = true ∧ MetaCommand.isMeta i.line.trim = false))) ∧
    (∀ k q, k < s.index → sequents[k]? = some q →
      q.IsValid.{u} ∨ ∃ before j after, is = before ++ j :: after ∧ (s₀.run before).index = k ∧
        (s₀.run (before ++ [j])).index = k + 1 ∧ j.line.trim = Text.ofString ":s") ∧
    (result = .ok .solved ↔ ∃ r, Request.parse i.line.trim = .ok r ∧
      s.derivation.isComplete = false ∧ s.derivation.proveNext r = .ok s'.derivation ∧
      s'.derivation.isComplete = true) ∧
    (s.isDone = true → s' = s ∧
      result = .ok (if i.line.trim = Text.ofString ":q" then .quit else .finished)) := by
  intro s s' result
  have hs' : s' = (s.exec i.canceled i.line).session := run_concat s₀ is i
  have hreaction : s.Reaction i.line.trim s' result := by
    rw [hs']
    exact reaction_exec s i.canceled i.line
  have hcases := hreaction.index_cases
  refine ⟨?_, ?_, ?_, ?_, hreaction.eq_of_isDone⟩
  · have hreachable : s'.Reachable := ⟨_, _, _, _, is ++ [i], hstart, rfl⟩
    have hbound := hreachable.index_le
    rw [sequents_run, sequents_of_start? hstart] at hbound
    omega
  · intro hopen
    constructor
    · intro hnext
      rcases hcases with ⟨-, hpass, -⟩ | ⟨-, hsame⟩
      · exact hpass
      · omega
    · intro hpass
      rcases hcases with ⟨-, -, hnext⟩ | ⟨hstay, -⟩
      · exact hnext
      · exact absurd ⟨hopen, hpass⟩ hstay
  · intro k q hk hq
    obtain ⟨before, j, after, hsplit, hbefore, hafter, hskip | hvalid⟩ := run_passed hstart is hk
    · exact .inr ⟨before, j, after, hsplit, hbefore, hafter, hskip⟩
    · exact .inl (hvalid q hq)
  · constructor
    · intro hsolved
      rw [hsolved] at hreaction
      exact hreaction.exists_request
    · rintro ⟨r, hr, hbefore, -, hafter⟩
      exact hreaction.eq_solved hr hbefore hafter

/-- In a session on two sequents the first is solved by its second line, and
the blank line after that passes over it; so it is valid, not having been
skipped.  The second sequent is skipped, which ends the session. -/
theorem run_passes_two :
    let A : Formula := .var ⟨⟨'A', rfl⟩, []⟩
    let q : Sequent := ⟨[], .impl A A⟩
    let options : SessionOptions := { display := { style := .default } }
    let s₀ : Session := ⟨[q, ⟨[], A⟩], 0, .start (.goal q), options⟩
    let ii : Input := ⟨false, Text.ofString "ii"⟩
    let h : Input := ⟨false, Text.ofString " h"⟩
    let blank : Input := ⟨true, []⟩
    let skip : Input := ⟨false, Text.ofString ":s "⟩
    start? [q, ⟨[], A⟩] options = some (s₀, [provingRecord 0 q]) ∧
    (((s₀.run [ii]).exec h.canceled h.line).result = .ok .solved ∧
      (s₀.run [ii, h]).derivation.isComplete = true) ∧
    (s₀.run [ii, h, blank]).index = 1 ∧ q.IsValid.{u} ∧
    (s₀.run [ii, h, blank, skip]).index = 2 ∧
    ((s₀.run [ii, h, blank, skip]).exec ii.canceled ii.line).result = .ok .finished := by
  intro A q options s₀ ii h blank skip
  have hstart : start? [q, ⟨[], A⟩] options = some (s₀, [provingRecord 0 q]) := rfl
  have hsolved : ((s₀.run [ii]).exec h.canceled h.line).result = .ok .solved := by decide +kernel
  obtain ⟨r, -, -, -, hcomplete⟩ := (run_passes.{u} hstart [ii] h).2.2.2.1.mp hsolved
  have hone : (s₀.run [ii, h, blank]).index = 1 := by
    have hnext := ((run_passes.{u} hstart [ii, h] blank).2.1 (by decide +kernel)).mpr
      (.inr ⟨hcomplete, rfl⟩)
    have hzero : (s₀.run [ii, h]).index = 0 := by decide +kernel
    rw [hzero] at hnext
    exact hnext
  have htwo : (s₀.run [ii, h, blank, skip]).index = 2 := by
    have hnext := ((run_passes.{u} hstart [ii, h, blank] skip).2.1 (by decide +kernel)).mpr
      (.inl (by decide))
    rw [hone] at hnext
    exact hnext
  have hpassed := (run_passes.{u} hstart [ii, h, blank] skip).2.2.1 0 q (by rw [hone]; decide) rfl
  have hover := (run_passes.{u} hstart [ii, h, blank, skip] ii).2.2.2.2 (by decide +kernel)
  refine ⟨hstart, ⟨hsolved, hcomplete⟩, hone, hpassed.resolve_right ?_, htwo, hover.2⟩
  rintro ⟨before, j, after, hsplit, -, -, hskip⟩
  have hj : j ∈ [ii, h, blank] := by rw [hsplit]; simp
  simp only [List.mem_cons, List.not_mem_nil, or_false] at hj
  rcases hj with rfl | rfl | rfl <;> exact absurd hskip (by decide)

end Session

end Sequitur
