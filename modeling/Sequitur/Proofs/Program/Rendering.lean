import Sequitur.Program.Run
import Sequitur.Proofs.Session.Progress

/-!
# Sequitur.Proofs.Program.Rendering

A rendering and a session come to the same.  A rendering applies the requests
of lines to the first goal and stops at the first one that fails; a session
trims each line, looks whether it is a meta command, keeps a history, and goes
on after an error.

`Applied` is what the two have in common: lines that are requests, each of
which fits the first goal when its turn comes.  A rendering applies such lines
and then ends or fails (`applied_run`); a session that is given them answers
none of them by an error, and has the same derivation afterwards
(`exists_run_of_applied`, `result_exec_of_applied`).  The line that a rendering
fails at is refused by the session for the same reason, unless the session
takes it for something else than a request (`exec_eq_execRequest`).
-/

namespace Sequitur

/-! ## Lines that are requests -/

/-- Blanks at the ends of a line do not matter to the request. -/
theorem Request.parse_trim (line : Text) : parse line.trim = parse line := by
  rw [parse, parse, Text.trim_trim]

/-- A request has something in it. -/
theorem Request.trim_ne_nil_of_parse {line : Text} {r : Request} (h : parse line = .ok r) :
    line.trim ≠ [] := by
  intro hnil
  rw [← parse_trim, hnil] at h
  contradiction

/-- A request is no meta command. -/
theorem Request.isMeta_trim_of_parse {line : Text} {r : Request} (h : parse line = .ok r) :
    MetaCommand.isMeta line.trim = false := by
  rw [Bool.eq_false_iff]
  intro hmeta
  rw [← parse_trim] at h
  exact parse_ne_ok_of_isMeta hmeta r h

/-! ## Renderings -/

/-- The fault of a rendering as a session reports it. -/
def RenderingFault.toSessionError : RenderingFault → SessionError
  | request e => .request e
  | derivation e => .derivation e

namespace Rendering

variable {d d' : Derivation} {line : Text}

theorem applyLine_eq_ok_iff {r : Request} :
    applyLine d line = .ok (r, d') ↔ Request.parse line = .ok r ∧ d.proveNext r = .ok d' := by
  rw [applyLine]
  cases hr : Request.parse line with
  | error e => simp
  | ok r' =>
      cases hd : d.proveNext r' with
      | error e => grind
      | ok d₁ => grind

/-- `Applied d lines d'`: all lines are requests that fit, one after the other,
and lead from `d` to `d'`. -/
inductive Applied : Derivation → List Text → Derivation → Prop where
  | nil (d : Derivation) : Applied d [] d
  | cons {d d₁ d' : Derivation} {line : Text} {lines : List Text} {r : Request}
      (h : applyLine d line = .ok (r, d₁)) (hrest : Applied d₁ lines d') :
      Applied d (line :: lines) d'

/-- Lines are applied up to any of them first, and then the others. -/
theorem Applied.split {before after : List Text} (h : Applied d (before ++ after) d') :
    ∃ d₁, Applied d before d₁ ∧ Applied d₁ after d' := by
  induction before generalizing d with
  | nil => exact ⟨d, .nil d, h⟩
  | cons line before ih =>
      cases h with
      | cons hline hrest =>
          obtain ⟨d₁, hbefore, hafter⟩ := ih hrest
          exact ⟨d₁, .cons hline hbefore, hafter⟩

/-- The lines that have been applied: all of them, or those before the one that
has failed. -/
def accepted (r : Rendering) (lines : List Text) : List Text :=
  lines.take (r.failure.elim lines.length fun f => f.number - 1)

/-- How following lines ends: all have been applied, or one fails where those
before it have led. -/
theorem follow_cases (done : Nat) (d : Derivation) (lines : List Text) :
    (Applied d lines (follow done d lines).derivation ∧ (follow done d lines).failure = none) ∨
    ∃ before line after fault, lines = before ++ line :: after ∧
      Applied d before (follow done d lines).derivation ∧
      applyLine (follow done d lines).derivation line = .error fault ∧
      (follow done d lines).failure = some ⟨done + before.length + 1, line, fault⟩ := by
  -- the failure counts from the first line of all, so `done` grows on the way
  induction lines generalizing done d with
  | nil => exact .inl ⟨.nil d, rfl⟩
  | cons line lines ih =>
      cases hline : applyLine d line with
      | error fault =>
          have hfollow : follow done d (line :: lines) = ⟨d, [], some ⟨done + 1, line, fault⟩⟩ := by
            rw [follow, hline]
          rw [hfollow]
          exact .inr ⟨[], line, lines, fault, rfl, .nil d, hline, rfl⟩
      | ok p =>
          obtain ⟨r, d₁⟩ := p
          have hderivation : (follow done d (line :: lines)).derivation =
              (follow (done + 1) d₁ lines).derivation := by
            rw [follow, hline]
          have hfailure : (follow done d (line :: lines)).failure =
              (follow (done + 1) d₁ lines).failure := by
            rw [follow, hline]
          rw [hderivation, hfailure]
          rcases ih (done + 1) d₁ with ⟨happlied, hnone⟩ | ⟨before, l, after, fault, rfl, hrest⟩
          · exact .inl ⟨.cons hline happlied, hnone⟩
          · obtain ⟨happlied, hfault, hsome⟩ := hrest
            refine .inr ⟨line :: before, l, after, fault, rfl, .cons hline happlied, hfault, ?_⟩
            have hnumber : done + 1 + before.length = done + (line :: before).length := by
              rw [List.length_cons]
              omega
            rw [hsome, hnumber]

/-- The number of the line that has failed says how many have been applied. -/
theorem accepted_append {r : Rendering} {f : RenderingFailure} {before after : List Text}
    (hf : r.failure = some f) (hnumber : f.number = before.length + 1) :
    r.accepted (before ++ after) = before := by
  have hcount : f.number - 1 = before.length := by omega
  rw [accepted, hf, Option.elim_some, hcount]
  exact List.take_left

/-- A rendering has applied the lines that it has accepted, and fails only at
the line behind them. -/
theorem applied_run (q : Sequent) (lines : List Text) :
    Applied (.goal q) ((run q lines).accepted lines) (run q lines).derivation ∧
    ∀ f, (run q lines).failure = some f →
      lines[((run q lines).accepted lines).length]? = some f.line ∧
      applyLine (run q lines).derivation f.line = .error f.fault := by
  rcases follow_cases 0 (.goal q) lines with ⟨happlied, hnone⟩ | ⟨before, line, after, fault, hrest⟩
  · have hall : (run q lines).accepted lines = lines := by
      rw [run, accepted, hnone]
      exact List.take_length
    rw [hall]
    refine ⟨happlied, fun f hf => ?_⟩
    rw [run, hnone] at hf
    contradiction
  · obtain ⟨rfl, happlied, hfault, hsome⟩ := hrest
    have hbefore : (run q (before ++ line :: after)).accepted (before ++ line :: after) = before :=
      accepted_append hsome (by rw [Nat.zero_add])
    rw [hbefore]
    refine ⟨happlied, fun f hf => ?_⟩
    obtain rfl : _ = f := Option.some.inj (hsome.symm.trans hf)
    exact ⟨by simp, hfault⟩

end Rendering

/-! ## Sessions -/

namespace Session

open Rendering

variable {s : Session} {line : Text} {canceled : Bool}

/-- A line that is not blank and no meta command is taken for a request while
there is a goal. -/
theorem exec_eq_execRequest (hopen : s.isDone = false)
    (hgoal : s.derivation.isComplete = false) (hmeta : MetaCommand.isMeta line.trim = false)
    (hne : line.trim ≠ []) : s.exec canceled line = s.execRequest line.trim := by
  have hnotEmpty : line.trim.isEmpty = false := by simpa using hne
  rw [exec, execTrimmed, hopen, hmeta, hgoal, hnotEmpty]
  rfl

/-- A line that a rendering applies is applied by a session. -/
theorem exec_of_applyLine {r : Request} {d : Derivation} (hopen : s.isDone = false)
    (h : applyLine s.derivation line = .ok (r, d)) (canceled : Bool) :
    (s.exec canceled line).session = { s with history := s.history.push d } ∧
      (s.exec canceled line).result = .ok (if d.isComplete then .solved else .applied) := by
  obtain ⟨hr, hd⟩ := applyLine_eq_ok_iff.mp h
  have hleads : s.derivation.LeadsTo d := ⟨r, hd⟩
  rw [exec_eq_execRequest hopen hleads.isComplete_eq_false (Request.isMeta_trim_of_parse hr)
    (Request.trim_ne_nil_of_parse hr), execRequest, Request.parse_trim, hr]
  simp only [applyRequest, hd]
  cases d.isComplete <;> exact ⟨rfl, rfl⟩

/-- A line that a rendering fails at is refused by a session for the same
reason, if the session takes it for a request. -/
theorem result_exec_of_applyLine {fault : RenderingFault} (hopen : s.isDone = false)
    (hgoal : s.derivation.isComplete = false) (hmeta : MetaCommand.isMeta line.trim = false)
    (hne : line.trim ≠ []) (h : applyLine s.derivation line = .error fault) :
    (s.exec canceled line).result = .error fault.toSessionError := by
  rw [exec_eq_execRequest hopen hgoal hmeta hne, execRequest, Request.parse_trim]
  rw [applyLine] at h
  cases hr : Request.parse line with
  | error e =>
      simp only [hr] at h
      obtain rfl := Except.error.inj h
      rfl
  | ok r =>
      simp only [hr] at h
      cases hd : s.derivation.proveNext r with
      | error e =>
          simp only [hd] at h
          obtain rfl := Except.error.inj h
          simp only [applyRequest, hd]
          rfl
      | ok d => simp only [hd] at h; contradiction

/-! ## Runs -/

/-- Lines that are applied leave a session on its sequent, with the derivation
they lead to. -/
theorem exists_run_of_applied {d : Derivation} {is : List Input} (hopen : s.isDone = false)
    (h : Applied s.derivation (is.map (·.line)) d) :
    ∃ history : History Derivation, s.run is = { s with history } ∧ history.present = d := by
  induction is generalizing s with
  | nil =>
      cases h
      exact ⟨s.history, rfl, rfl⟩
  | cons i is ih =>
      cases h with
      | @cons _ d₁ _ _ _ r hline hrest =>
          obtain ⟨hsession, -⟩ := exec_of_applyLine hopen hline i.canceled
          have hafter : s.after i = { s with history := s.history.push d₁ } := hsession
          obtain ⟨history, hrun, hpresent⟩ :=
            ih (s := { s with history := s.history.push d₁ }) hopen hrest
          refine ⟨history, ?_, hpresent⟩
          rw [run, List.foldl_cons, hafter]
          exact hrun

/-- None of the lines that are applied is answered by an error. -/
theorem result_exec_of_applied {d : Derivation} {before after : List Input} {i : Input}
    (hopen : s.isDone = false)
    (h : Applied s.derivation ((before ++ i :: after).map (·.line)) d) :
    ((s.run before).exec i.canceled i.line).result = .ok .applied ∨
      ((s.run before).exec i.canceled i.line).result = .ok .solved := by
  rw [List.map_append] at h
  obtain ⟨d₁, hbefore, hrest⟩ := h.split
  obtain ⟨history, hrun, rfl⟩ := exists_run_of_applied hopen hbefore
  rw [hrun]
  cases hrest with
  | @cons _ d₂ _ _ _ r hline _ =>
      obtain ⟨-, hresult⟩ :=
        exec_of_applyLine (s := { s with history }) hopen hline i.canceled
      rw [hresult]
      cases d₂.isComplete with
      | true => exact .inr rfl
      | false => exact .inl rfl

/-- **A rendering and a session come to the same.**  Take a session on a single
sequent and give it the lines that a rendering of that sequent has accepted,
checks being canceled or not.  None of them is answered by an error, and what
the session shows then is what the rendering draws in the same style, painter
and emphasis; in particular it is what the program writes for these lines.  If
the rendering has failed, it has done so at the next line.  While there is still
a goal, and unless that line, without the blanks around it, is empty or starts
with a colon, the session refuses it with the same error. -/
theorem run_renders {q : Sequent} {options : SessionOptions} {s₀ : Session}
    {records : List LogRecord} (hstart : start? [q] options = some (s₀, records))
    {lines : List Text} {is : List Input}
    (his : is.map (·.line) = (Rendering.run q lines).accepted lines) :
    (∀ before i after, is = before ++ i :: after →
      ((s₀.run before).exec i.canceled i.line).result = .ok .applied ∨
        ((s₀.run before).exec i.canceled i.line).result = .ok .solved) ∧
    (s₀.run is).render = Picture.draw options.display (Rendering.run q lines).derivation ∧
    (∀ settings text, Sequent.parse text = .ok q → Program.display settings = options.display →
      (s₀.run is).render = (Program.render settings (text :: lines)).output) ∧
    ∀ f, (Rendering.run q lines).failure = some f →
      lines[is.length]? = some f.line ∧
      ((Rendering.run q lines).derivation.isComplete = false → f.line.trim ≠ [] →
        MetaCommand.isMeta f.line.trim = false →
        ∀ canceled, ((s₀.run is).exec canceled f.line).result =
          .error f.fault.toSessionError) := by
  cases hstart
  obtain ⟨happlied, hfails⟩ := Rendering.applied_run q lines
  rw [← his] at happlied
  obtain ⟨history, hrun, hpresent⟩ := exists_run_of_applied
    (s := ⟨[q], 0, .start (.goal q), options⟩) rfl happlied
  have hrender : (run ⟨[q], 0, .start (.goal q), options⟩ is).render =
      Picture.draw options.display (Rendering.run q lines).derivation := by
    rw [hrun, ← hpresent]
    rfl
  refine ⟨?_, hrender, ?_, ?_⟩
  · rintro before i after rfl
    exact result_exec_of_applied rfl happlied
  · intro settings text htext hdisplay
    rw [hrender, ← hdisplay, Program.render, htext]
  · intro f hf
    obtain ⟨hline, hfault⟩ := hfails f hf
    rw [← his, List.length_map] at hline
    refine ⟨hline, fun hgoal hne hmeta canceled => ?_⟩
    rw [hrun]
    rw [← hpresent] at hgoal hfault
    exact result_exec_of_applyLine rfl hgoal hmeta hne hfault

/-- A script that fails at its fourth line, with a goal left: the session has
drawn the same and refuses the line in the same words. -/
theorem run_renders_failing :
    let A : Formula := .var ⟨⟨'A', rfl⟩, []⟩
    let q : Sequent := ⟨[], .impl A (.conj A A)⟩
    let display : Picture.Options := { style := ⟨true, true⟩, emphasis := true }
    let s₀ : Session := ⟨[q], 0, .start (.goal q), { display }⟩
    let lines := [" ii ", "ci", "h", "ci", "h"].map Text.ofString
    let is : List Input := [⟨false, Text.ofString " ii "⟩, ⟨true, Text.ofString "ci"⟩,
      ⟨false, Text.ofString "h"⟩]
    let r := Rendering.run q lines
    is.map (·.line) = r.accepted lines ∧ r.derivation.isComplete = false ∧
      (s₀.run is).render = Picture.draw display r.derivation ∧
      ∃ e, r.failure = some ⟨4, Text.ofString "ci", .derivation e⟩ ∧
        ((s₀.run is).exec false (Text.ofString "ci")).result = .error (.derivation e) := by
  intro A q display s₀ lines is r
  have hstart : start? [q] { display } = some (s₀, [provingRecord 0 q]) := rfl
  have his : is.map (·.line) = r.accepted lines := by decide +kernel
  have hgoal : r.derivation.isComplete = false := by decide +kernel
  obtain ⟨e, he⟩ : ∃ e, r.failure = some ⟨4, Text.ofString "ci", .derivation e⟩ := ⟨_, rfl⟩
  obtain ⟨-, hrender, -, hfails⟩ := run_renders hstart his
  have hne : (Text.ofString "ci").trim ≠ [] := by decide
  have hmeta : MetaCommand.isMeta (Text.ofString "ci").trim = false := by decide
  exact ⟨his, hgoal, hrender, e, he, (hfails _ he).2 hgoal hne hmeta false⟩

/-- A line is trimmed before a session looks for a colon.  So a line with a
blank in front of a colon is a wrong request to a rendering, and a meta command
to a session. -/
theorem run_not_renders_blank_colon :
    let A : Formula := .var ⟨⟨'A', rfl⟩, []⟩
    let q : Sequent := ⟨[A], A⟩
    let s₀ : Session := ⟨[q], 0, .start (.goal q), { display := { style := .default } }⟩
    let line := Text.ofString " :b"
    let r := Rendering.run q [line]
    let e : RequestError := ⟨Text.ofString ":b", .unknownName (Text.ofString ":b")⟩
    r.accepted [line] = [] ∧ r.failure = some ⟨1, line, .request e⟩ ∧
      r.derivation.isComplete = false ∧ line.isBlank = false ∧
      line.head? ≠ some (.char ':') ∧
      (s₀.exec false line).result = .error .noHistory ∧
      (s₀.exec false line).result ≠ .error (.request e) := by
  decide +kernel

end Session

end Sequitur
