import Sequitur.Proofs.Session.Reaction

/-!
# Sequitur.Proofs.Session.Display

How a session is displayed never influences what it does.  The display options
are the style, the emphasis and the painter of the drawings; `shownAs` changes
them and nothing else.

Executing a line commutes with this change (`exec_shownAs`), unless the line
switches the style.  A line that does is answered by a word of the same kind in
any style, and changes nothing but the display (`exec_switch`).  So two runs on
the same inputs differ in the display only, wherever they have got to
(`exists_run_shownAs`).
-/

namespace Sequitur

/-- The session with other display options. -/
def Session.shownAs (s : Session) (display : Picture.Options) : Session :=
  { s with options := { s.options with display } }

/-- The reply with other display options afterwards. -/
def Reply.shownAs (r : Reply) (display : Picture.Options) : Reply :=
  { r with session := r.session.shownAs display }

namespace Session

variable (s : Session) (display : Picture.Options)

@[simp] theorem sequents_shownAs : (s.shownAs display).sequents = s.sequents := rfl

@[simp] theorem index_shownAs : (s.shownAs display).index = s.index := rfl

@[simp] theorem history_shownAs : (s.shownAs display).history = s.history := rfl

@[simp] theorem isDone_shownAs : (s.shownAs display).isDone = s.isDone := rfl

@[simp] theorem derivation_shownAs : (s.shownAs display).derivation = s.derivation := rfl

@[simp] theorem status_shownAs : (s.shownAs display).status = s.status := rfl

@[simp] theorem shownAs_shownAs (other : Picture.Options) :
    (s.shownAs display).shownAs other = s.shownAs other := rfl

/-! ## Lines that leave the style alone -/

theorem advance_shownAs (skipped : Bool) :
    (s.shownAs display).advance skipped = (s.advance skipped).shownAs display := by
  rw [advance, advance, sequents_shownAs, index_shownAs]
  cases s.sequents[s.index + 1]? with
  | none => rfl
  | some next => rfl

theorem applyRequest_shownAs (r : Request) :
    (s.shownAs display).applyRequest r = (s.applyRequest r).shownAs display := by
  rw [applyRequest, applyRequest, derivation_shownAs]
  cases s.derivation.proveNext r with
  | error e => rfl
  | ok d => cases hcomplete : d.isComplete <;> simp only [hcomplete] <;> rfl

theorem execRequest_shownAs (line : Text) :
    (s.shownAs display).execRequest line = (s.execRequest line).shownAs display := by
  rw [execRequest, execRequest]
  cases Request.parse line with
  | error e => rfl
  | ok r => exact applyRequest_shownAs s display r

theorem execMeta_shownAs (canceled : Bool) {m : MetaCommand} (hn : m ≠ .negation)
    (hu : m ≠ .unicode) :
    (s.shownAs display).execMeta canceled m = (s.execMeta canceled m).shownAs display := by
  cases m with
  | back =>
      rw [execMeta, execMeta, history_shownAs]
      cases s.history.undo? <;> rfl
  | forward =>
      rw [execMeta, execMeta, history_shownAs]
      cases s.history.redo? <;> rfl
  | skip =>
      rw [execMeta, execMeta, advance_shownAs]
      rfl
  | negation => contradiction
  | unicode => contradiction
  | reset | help | check | needed | quit => rfl

/-- A line switches the style. -/
def Switches (line : Text) : Prop := line = Text.ofString ":n" ∨ line = Text.ofString ":u"

/-- **The display does not matter to a line** that leaves the style alone. -/
theorem exec_shownAs (canceled : Bool) {line : Text} (hline : ¬ Switches line.trim) :
    (s.shownAs display).exec canceled line = (s.exec canceled line).shownAs display := by
  rw [exec, exec, execTrimmed, execTrimmed, isDone_shownAs, derivation_shownAs]
  cases s.isDone with
  | true => rfl
  | false =>
      cases MetaCommand.isMeta line.trim with
      | true =>
          cases hm : MetaCommand.ofText? line.trim with
          | none => rfl
          | some m =>
              apply execMeta_shownAs
              · rintro rfl
                exact hline (.inl (text_of_ofText? hm))
              · rintro rfl
                exact hline (.inr (text_of_ofText? hm))
      | false =>
          cases s.derivation.isComplete with
          | true => exact advance_shownAs s display false
          | false =>
              cases line.trim.isEmpty with
              | true => rfl
              | false => exact execRequest_shownAs s display line.trim

/-! ## All lines -/

/-- A line that switches the style changes nothing but the display, and the
kind of the answer does not depend on the display. -/
theorem exec_switch (canceled : Bool) {line : Text} (hline : Switches line.trim) :
    (∃ display, (s.exec canceled line).session = s.shownAs display) ∧
      (s.exec canceled line).result.map Outcome.kind =
        .ok (if s.isDone then .finished else .styled) := by
  cases hdone : s.isDone with
  | true =>
      have hquit : MetaCommand.ofText? line.trim ≠ some .quit := by
        rcases hline with hn | hu
        · rw [hn]
          decide
        · rw [hu]
          decide
      rw [exec_of_isDone hdone, if_neg hquit]
      exact ⟨⟨s.options.display, rfl⟩, rfl⟩
  | false =>
      rcases hline with hn | hu
      · rw [exec_meta (m := .negation) hdone hn]
        exact ⟨⟨_, rfl⟩, rfl⟩
      · rw [exec_meta (m := .unicode) hdone hu]
        exact ⟨⟨_, rfl⟩, rfl⟩

/-- Executing a line keeps sessions alike that differ in the display only. -/
theorem exists_exec_shownAs (canceled : Bool) (line : Text) :
    ∃ display', ((s.shownAs display).exec canceled line).session =
      (s.exec canceled line).session.shownAs display' := by
  by_cases hline : Switches line.trim
  · obtain ⟨⟨d₁, h₁⟩, -⟩ := s.exec_switch canceled hline
    obtain ⟨⟨d₂, h₂⟩, -⟩ := (s.shownAs display).exec_switch canceled hline
    exact ⟨d₂, by rw [h₁, h₂, shownAs_shownAs, shownAs_shownAs]⟩
  · exact ⟨display, by rw [exec_shownAs s display canceled hline]; rfl⟩

/-- The answers to a line are of the same kind, whatever the display. -/
theorem map_kind_exec_shownAs (canceled : Bool) (line : Text) :
    ((s.shownAs display).exec canceled line).result.map Outcome.kind =
      (s.exec canceled line).result.map Outcome.kind := by
  by_cases hline : Switches line.trim
  · rw [(s.exec_switch canceled hline).2, ((s.shownAs display).exec_switch canceled hline).2,
      isDone_shownAs]
  · rw [exec_shownAs s display canceled hline]
    rfl

/-- Runs on the same inputs lead to sessions that differ in the display only. -/
theorem exists_run_shownAs (is : List Input) :
    ∃ display', (s.shownAs display).run is = (s.run is).shownAs display' := by
  induction is generalizing s display with
  | nil => exact ⟨display, rfl⟩
  | cons i is ih =>
      obtain ⟨d, hd⟩ := exists_exec_shownAs s display i.canceled i.line
      obtain ⟨display', h⟩ := ih (s.after i) d
      refine ⟨display', ?_⟩
      rw [run, List.foldl_cons, after, hd]
      exact h

/-- **Display options never influence proving.**  Take a session with two
choices of style, emphasis and painter, and execute the same inputs in both.
Then the index, the derivation with those before and after it, and the status
are the same.  One more input is answered by the same error or by outcomes of
the same kind, and unless it switches the style the outcome is the same. -/
theorem run_shownAs_alike (display₁ display₂ : Picture.Options) (is : List Input) (i : Input) :
    let s₁ := (s.shownAs display₁).run is
    let s₂ := (s.shownAs display₂).run is
    let result₁ := (s₁.exec i.canceled i.line).result
    let result₂ := (s₂.exec i.canceled i.line).result
    (s₁.index = s₂.index ∧ s₁.derivation = s₂.derivation ∧
      s₁.history.past = s₂.history.past ∧ s₁.history.future = s₂.history.future ∧
      s₁.status = s₂.status) ∧
    result₁.map Outcome.kind = result₂.map Outcome.kind ∧
    (i.line.trim ≠ Text.ofString ":n" → i.line.trim ≠ Text.ofString ":u" →
      result₁.map Outcome.message = result₂.map Outcome.message) := by
  intro s₁ s₂ result₁ result₂
  obtain ⟨d₁, h₁⟩ : ∃ d, s₁ = (s.run is).shownAs d := exists_run_shownAs s display₁ is
  obtain ⟨d₂, h₂⟩ : ∃ d, s₂ = (s.run is).shownAs d := exists_run_shownAs s display₂ is
  have hkind : result₁.map Outcome.kind = result₂.map Outcome.kind := by
    simp only [result₁, result₂, h₁, h₂, map_kind_exec_shownAs]
  refine ⟨by simp [h₁, h₂], hkind, fun hn hu => ?_⟩
  have hline : ¬ Switches i.line.trim := not_or.mpr ⟨hn, hu⟩
  simp only [result₁, result₂, h₁, h₂, exec_shownAs _ _ _ hline, Reply.shownAs]

/-- After a switch of the style and a step, a rule that does not fit is refused
in the same words, although the goal is drawn with different symbols. -/
theorem run_shownAs_alike_refused :
    let A : Formula := .var ⟨⟨'A', rfl⟩, []⟩
    let q : Sequent := ⟨[], .impl A (.disj A A)⟩
    let s : Session := ⟨[q], 0, .start (.goal q), { display := { style := .default } }⟩
    let is : List Input := [⟨false, Text.ofString ":n"⟩, ⟨false, Text.ofString "ii"⟩]
    let s₁ := (s.shownAs { style := ⟨false, true⟩ }).run is
    let s₂ := (s.shownAs { style := ⟨true, true⟩, emphasis := true }).run is
    s₁.render ≠ s₂.render ∧ Text.trim (Text.ofString "ci") ≠ Text.ofString ":n" ∧
      Text.trim (Text.ofString "ci") ≠ Text.ofString ":u" ∧
      (s₁.exec false (Text.ofString "ci")).result.map Outcome.message =
        (s₂.exec false (Text.ofString "ci")).result.map Outcome.message := by
  intro A q s is s₁ s₂
  have hn : Text.trim (Text.ofString "ci") ≠ Text.ofString ":n" := by decide
  have hu : Text.trim (Text.ofString "ci") ≠ Text.ofString ":u" := by decide
  exact ⟨by decide +kernel, hn, hu,
    (run_shownAs_alike s _ _ is ⟨false, Text.ofString "ci"⟩).2.2 hn hu⟩

end Session

end Sequitur
