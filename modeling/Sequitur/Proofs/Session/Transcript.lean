import Sequitur.Proofs.Session.Message
import Sequitur.Proofs.Session.Progress
import Sequitur.Proofs.Text.Lines
import Sequitur.Session.Transcript

/-!
# Sequitur.Proofs.Session.Transcript

What the transcript of a session can be relied on for.  It is never out of
date: as long as the run goes on, the last block in it is the status and the
drawing of the session that the next line will find (`Shows`).  This is kept by
every line.  A line that may have changed the session writes a new block, and any
other line writes notes, none of which looks like the start of a block
(`Shows.response`).

It also only grows.  What is written for a line depends on the lines before it and
on nothing else, and the line that ends the run is the last one that is looked at
(`follow_append`, `follow_cons_of_leaves`).  The input can be cut as well: after a
newline, the reading starts anew (`Lines.readFrom_append`).
-/

namespace Sequitur

namespace Picture

theorem unlines_append (ls ms : List String) : unlines (ls ++ ms) = unlines ls ++ unlines ms := by
  induction ls with
  | nil => simp [unlines]
  | cons l ls ih => simp [unlines, ih, String.append_assoc]

end Picture

namespace Transcript

variable {s : Session} {lines : List Text} {line : Text} {out : String}

/-! ## Lines after which the run goes on -/

/-- Whether a reply ends the run: the user leaves, or no sequent is left. -/
def Leaves (r : Reply) : Prop := r.result = .ok .quit ∨ r.result = .ok .finished

instance (r : Reply) : Decidable (Leaves r) := inferInstanceAs (Decidable (_ ∨ _))

theorem ends_iff (r : Reply) : ends r = true ↔ Leaves r := by
  rw [ends, Leaves]
  split <;> simp_all

/-- Whether no line ends the run when the lines are executed one after the other. -/
def GoesOn (s : Session) (lines : List Text) : Prop :=
  ∀ before line after, lines = before ++ line :: after →
    ¬ Leaves ((s.runLines before).exec false line)

theorem goesOn_nil (s : Session) : GoesOn s [] := by
  intro before line after h
  simp at h

theorem goesOn_cons :
    GoesOn s (line :: lines) ↔
      ¬ Leaves (s.exec false line) ∧ GoesOn (s.exec false line).session lines := by
  constructor
  · intro h
    refine ⟨h [] line lines rfl, ?_⟩
    rintro before line' after rfl
    exact h (line :: before) line' after rfl
  · rintro ⟨hline, hlines⟩ before line' after h
    cases before with
    | nil =>
        obtain ⟨rfl, -⟩ := List.cons.inj h
        exact hline
    | cons _ before =>
        obtain ⟨rfl, hrest⟩ := List.cons.inj h
        exact hlines before line' after hrest

theorem follow_cons_of_leaves (h : Leaves (s.exec false line)) (e : Option TranscriptError)
    (lines : List Text) :
    follow s e (line :: lines) =
      ⟨response (s.exec false line), (s.exec false line).records, (s.exec false line).session,
        none⟩ := by
  rw [follow]
  exact if_pos ((ends_iff _).mpr h)

theorem follow_cons (h : ¬ Leaves (s.exec false line)) (e : Option TranscriptError)
    (lines : List Text) :
    follow s e (line :: lines) =
      { follow (s.exec false line).session e lines with
        output := response (s.exec false line) ++
          (follow (s.exec false line).session e lines).output
        records := (s.exec false line).records ++
          (follow (s.exec false line).session e lines).records } := by
  rw [follow]
  exact if_neg fun hends => h ((ends_iff _).mp hends)

/-- A run over lines that do not end it can be cut after them. -/
theorem follow_append (h : GoesOn s lines) (e : Option TranscriptError) (rest : List Text) :
    follow s e (lines ++ rest) =
      { follow (s.runLines lines) e rest with
        output := (follow s none lines).output ++ (follow (s.runLines lines) e rest).output
        records := (follow s none lines).records ++
          (follow (s.runLines lines) e rest).records } := by
  induction lines generalizing s with
  | nil => simp [follow, Session.runLines, Session.run]
  | cons line lines ih =>
      obtain ⟨hline, hlines⟩ := goesOn_cons.mp h
      rw [List.cons_append, follow_cons hline, follow_cons hline, ih hlines, s.runLines_cons]
      simp only [String.append_assoc, List.append_assoc]

/-- More lines, more output. -/
theorem output_follow_append (s : Session) (e e' : Option TranscriptError)
    (lines rest : List Text) :
    ∃ more, (follow s e (lines ++ rest)).output = (follow s e' lines).output ++ more := by
  induction lines generalizing s with
  | nil => exact ⟨_, String.empty_append.symm⟩
  | cons line lines ih =>
      rw [List.cons_append]
      by_cases hleaves : Leaves (s.exec false line)
      · rw [follow_cons_of_leaves hleaves, follow_cons_of_leaves hleaves]
        exact ⟨"", String.append_empty.symm⟩
      · obtain ⟨more, hmore⟩ := ih (s.exec false line).session
        rw [follow_cons hleaves, follow_cons hleaves]
        exact ⟨more, by rw [hmore, String.append_assoc]⟩

/-! ## Blocks and notes -/

/-- Whether a text consists of whole lines. -/
def EndsLine (t : String) : Prop := t = "" ∨ ∃ u, t = u ++ "\n"

theorem EndsLine.append {t u : String} (ht : EndsLine t) (hu : EndsLine u) :
    EndsLine (t ++ u) := by
  rcases hu with rfl | ⟨u, rfl⟩
  · rwa [String.append_empty]
  · exact .inr ⟨t ++ u, String.append_assoc.symm⟩

theorem endsLine_unlines (ls : List String) : EndsLine (Picture.unlines ls) := by
  induction ls with
  | nil => exact .inl rfl
  | cons l ls ih => exact .append (.inr ⟨l, rfl⟩) ih

/-- Whether a text consists of lines that do not start with a dash, as the first
line of a block does. -/
def IsNotes (t : String) : Prop :=
  ∃ ls : List String, t = Picture.unlines ls ∧ ∀ l ∈ ls, IsLine l ∧ l.toList.head? ≠ some '-'

theorem isNotes_nil : IsNotes "" := ⟨[], rfl, by simp⟩

theorem IsNotes.append {t u : String} (ht : IsNotes t) (hu : IsNotes u) : IsNotes (t ++ u) := by
  obtain ⟨ls, rfl, hls⟩ := ht
  obtain ⟨ms, rfl, hms⟩ := hu
  refine ⟨ls ++ ms, (Picture.unlines_append ls ms).symm, ?_⟩
  intro l hl
  exact (List.mem_append.mp hl).elim (hls l) (hms l)

theorem isNotes_line {l : String} (hl : IsLine l) (hhead : l.toList.head? ≠ some '-') :
    IsNotes (l ++ "\n") := ⟨[l], by simp [Picture.unlines], by simp [hl, hhead]⟩

/-- The last block of a text is the one of the session: its status behind two dashes,
then its drawing and a newline.  The block starts on a line of its own, and there are
only notes after it. -/
def Shows (out : String) (s : Session) : Prop :=
  ∃ before notes,
    out = before ++ ("-- " ++ s.status ++ "\n" ++ s.render ++ "\n") ++ notes ∧
      EndsLine before ∧ IsNotes notes

theorem shows_block (s : Session) : Shows (block s) s :=
  ⟨"", "", by simp [block], .inl rfl, isNotes_nil⟩

theorem Shows.endsLine (h : Shows out s) : EndsLine out := by
  obtain ⟨before, _, rfl, hbefore, ls, rfl, -⟩ := h
  exact (hbefore.append (.inr ⟨_, rfl⟩)).append (endsLine_unlines ls)

theorem Shows.notes (h : Shows out s) {t : String} (ht : IsNotes t) : Shows (out ++ t) s := by
  obtain ⟨before, notes, rfl, hbefore, hnotes⟩ := h
  exact ⟨before, notes ++ t, String.append_assoc, hbefore, hnotes.append ht⟩

theorem Shows.block (h : Shows out s) {t : String} (ht : EndsLine t) (s' : Session) :
    Shows (out ++ (t ++ block s')) s' :=
  ⟨out ++ t, "", by rw [String.append_empty, String.append_assoc, Transcript.block],
    h.endsLine.append ht, isNotes_nil⟩

/-! ## What a line writes -/

theorem isNotes_error (e : SessionError) : IsNotes ("error: " ++ e.message ++ "\n") := by
  rcases e.isMessage_message with hline | ⟨l, hl, hmessage⟩
  · exact isNotes_line (.append (by decide) hline) (by simp)
  · -- The second line is the quotation mark alone.
    have htwo : "error: " ++ e.message ++ "\n" = ("error: " ++ l ++ "\n") ++ ("'" ++ "\n") := by
      rw [hmessage]
      simp only [String.append_assoc]
      rfl
    rw [htwo]
    exact (isNotes_line (.append (by decide) hl) (by simp)).append
      (isNotes_line (by decide) (by decide))

theorem isNotes_ofList {cs : List Char} (hlast : cs.getLast? = some '\n')
    (hline : '\n' ∉ cs.dropLast) (hhead : cs.dropLast.head? ≠ some '-') :
    IsNotes (String.ofList cs) := by
  have hsplit : String.ofList cs = String.ofList cs.dropLast ++ "\n" := by
    apply String.ext
    rw [String.toList_append, String.toList_ofList, String.toList_ofList]
    exact (List.dropLast_append_getLast? _ hlast).symm
  rw [hsplit]
  exact isNotes_line (by rwa [IsLine, String.toList_ofList]) (by rwa [String.toList_ofList])

theorem isNotes_usage : IsNotes (usage ++ "\n") := by
  unfold usage
  repeat' refine IsNotes.append ?_ ?_
  all_goals exact isNotes_ofList (by decide) (by decide) (by decide)

theorem isNotes_verdict (v : Verdict) : IsNotes ((Outcome.verdict v).message ++ "\n") := by
  refine isNotes_line (Outcome.isLine_message (by simp)) ?_
  cases v with
  | valid => decide
  | invalid m => cases m <;> simp [Outcome.message, Verdict.message]

theorem isNotes_unneeded (is : List Nat) : IsNotes ((Outcome.unneeded is).message ++ "\n") := by
  refine isNotes_line (Outcome.isLine_message (by simp)) ?_
  cases is <;> simp [Outcome.message]

/-- **A line keeps the transcript up to date.** -/
theorem Shows.response (h : Shows out s) (hline : ¬ Leaves (s.exec false line)) :
    Shows (out ++ response (s.exec false line)) (s.exec false line).session := by
  have hreaction := s.reaction_exec false line
  generalize s.exec false line = reply at hline hreaction
  have hword : ∀ o : Outcome,
      EndsLine (if o.message.isEmpty then "" else o.message ++ "\n") := by
    intro o
    split
    · exact .inl rfl
    · exact .inr ⟨_, rfl⟩
  obtain ⟨s', records, result⟩ := reply
  cases result with
  | error e =>
      obtain rfl := hreaction.eq_of_error
      exact h.notes (isNotes_error e)
  | ok o =>
      cases o with
      | applied | solved | moved | next _ | negation _ | unicode _ => exact h.block (hword _) s'
      | verdict v =>
          obtain rfl := hreaction.eq_of_kind (.inl rfl)
          exact h.notes (isNotes_verdict v)
      | unneeded is =>
          obtain rfl := hreaction.eq_of_kind (.inl rfl)
          exact h.notes (isNotes_unneeded is)
      | help =>
          obtain rfl := hreaction.eq_of_kind (.inr (.inl rfl))
          exact h.notes isNotes_usage
      | finished => exact absurd (.inr rfl) hline
      | quit => exact absurd (.inl rfl) hline

theorem Shows.follow (h : Shows out s) (hlines : GoesOn s lines) :
    Shows (out ++ (follow s none lines).output) (s.runLines lines) := by
  induction lines generalizing out s with
  | nil => simpa [Transcript.follow, Session.runLines, Session.run] using h
  | cons line lines ih =>
      obtain ⟨hline, hlines⟩ := goesOn_cons.mp hlines
      rw [follow_cons hline, s.runLines_cons, ← String.append_assoc]
      exact ih (h.response hline) hlines

/-! ## Runs -/

/-- What has been written when lines have been executed. -/
def written (s : Session) (lines : List Text) : String :=
  block s ++ (follow s none lines).output

/-- What stops a run that reaches the end of its input. -/
def stop? (input : Text) : Option TranscriptError :=
  if (Lines.read input).overlong then some .overlong else none

theorem run_eq (s : Session) (input : Text) :
    run s false input =
      { follow s (stop? input) (Lines.read input).lines with
        output := block s ++ (follow s (stop? input) (Lines.read input).lines).output } := rfl

theorem run_eq_of_goesOn {input : Text} {rest : List Text}
    (hread : (Lines.read input).lines = lines ++ rest) (h : GoesOn s lines) :
    run s false input =
      { follow (s.runLines lines) (stop? input) rest with
        output := written s lines ++ (follow (s.runLines lines) (stop? input) rest).output
        records := (follow s none lines).records ++
          (follow (s.runLines lines) (stop? input) rest).records } := by
  rw [run_eq, hread, follow_append h, written]
  simp only [String.append_assoc]

theorem output_run (s : Session) (input : Text) :
    (run s false input).output =
      block s ++ (follow s (stop? input) (Lines.read input).lines).output := rfl

theorem output_run_append (s : Session) (a b : Text) :
    ∃ more, (run s false (a ++ .char '\n' :: b)).output =
      (run s false (a ++ [.char '\n'])).output ++ more := by
  rcases Lines.readFrom_append [] 0 a b with hstopped | hmore
  · rw [run, Lines.read, hstopped]
    exact ⟨"", String.append_empty.symm⟩
  · have hlines : (Lines.read (a ++ .char '\n' :: b)).lines =
        (Lines.read (a ++ [.char '\n'])).lines ++ (Lines.read b).lines :=
      congrArg Lines.lines hmore
    obtain ⟨more, hfollow⟩ := output_follow_append s (stop? (a ++ .char '\n' :: b))
      (stop? (a ++ [.char '\n'])) (Lines.read (a ++ [.char '\n'])).lines (Lines.read b).lines
    exact ⟨more, by rw [output_run, output_run, hlines, hfollow, String.append_assoc]⟩

/-- **The transcript is up to date and only grows.**  As long as the run goes on, the
last block that has been written is the one of the current session, and everything
else is written after it.  The first line that leaves or finishes is the last one
to be executed.  And what is written for an input that ends with a newline is what
is written first for any longer input. -/
theorem run_stays_current (s : Session) :
    (∀ input done rest, (Lines.read input).lines = done ++ rest → GoesOn s done →
      Shows (written s done) (s.runLines done) ∧
      run s false input =
        { follow (s.runLines done) (stop? input) rest with
          output := written s done ++ (follow (s.runLines done) (stop? input) rest).output
          records := (follow s none done).records ++
            (follow (s.runLines done) (stop? input) rest).records }) ∧
    (∀ input done line rest, (Lines.read input).lines = done ++ line :: rest → GoesOn s done →
      Leaves ((s.runLines done).exec false line) →
      run s false input =
        { output := written s done ++ response ((s.runLines done).exec false line)
          records := (follow s none done).records ++ ((s.runLines done).exec false line).records
          session := s.runLines (done ++ [line])
          error := none }) ∧
    ∀ a b : List UInt8, ∃ more, (run s false (Text.ofBytes (a ++ 0x0A :: b))).output =
      (run s false (Text.ofBytes (a ++ [0x0A]))).output ++ more := by
  refine ⟨?_, ?_, ?_⟩
  · intro input done rest hread hdone
    exact ⟨(shows_block s).follow hdone, run_eq_of_goesOn hread hdone⟩
  · intro input done line rest hread hdone hline
    rw [run_eq_of_goesOn hread hdone, follow_cons_of_leaves hline, s.runLines_concat]
  · intro a b
    rw [Text.ofBytes_append_newline, Text.ofBytes_append_newline]
    exact output_run_append s _ _

/-- After a rule that does not fit, a rule that does and a switch of the symbols, the
transcript shows the session with its one step, and the user leaves before the
proof would be completed. -/
theorem run_stays_current_left :
    let A : Formula := .var ⟨⟨'A', rfl⟩, []⟩
    let q : Sequent := ⟨[], .impl A A⟩
    let s : Session := ⟨[q], 0, .start (.goal q), { display := { style := .default } }⟩
    let input := Text.ofString "ci\nii\n:u\n:q\nh\n"
    let done := [Text.ofString "ci", Text.ofString "ii", Text.ofString ":u"]
    ((Lines.read input).lines = done ++ [Text.ofString ":q", Text.ofString "h"] ∧
      GoesOn s done ∧ Leaves ((s.runLines done).exec false (Text.ofString ":q"))) ∧
    Shows (written s done) (s.runLines done) ∧
    (run s false input).output = written s done ∧
    (run s false input).session = s.runLines (done ++ [Text.ofString ":q"]) := by
  intro A q s input done
  have hread : (Lines.read input).lines = done ++ [Text.ofString ":q", Text.ofString "h"] := by
    decide +kernel
  have hdone : GoesOn s done :=
    goesOn_cons.mpr ⟨by decide +kernel, goesOn_cons.mpr ⟨by decide +kernel,
      goesOn_cons.mpr ⟨by decide +kernel, goesOn_nil _⟩⟩⟩
  have hleaves : Leaves ((s.runLines done).exec false (Text.ofString ":q")) := by decide +kernel
  have hshows := (run_stays_current s).1 input done _ hread hdone
  have hrun := (run_stays_current s).2.1 input done _ _ hread hdone hleaves
  refine ⟨⟨hread, hdone, hleaves⟩, hshows.1, ?_, ?_⟩
  · rw [hrun]
    exact String.append_empty
  · rw [hrun]

end Transcript

end Sequitur
