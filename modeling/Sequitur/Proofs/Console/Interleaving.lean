import Sequitur.Console.Screen
import Sequitur.Proofs.Session.Progress

/-!
# Sequitur.Proofs.Console.Interleaving

A console does what its session does, however events and the answers to checks
are interleaved.

The console asks for checks and is told their answers later.  A `Terminal` is a
console with all checks it has asked for and not been told about, any number of
them, and with the lines that have been submitted so far.  Events come in any
order, and so do the answers.

`Effect` lists what an event that is no answer can do to the session and to the
checks, and `effect_update` is the only place where the handling of events is
opened.  From it follows what holds after every event (`Tracks`), and from that
the main result, `run_refines`.
-/

namespace Sequitur

/-! ## Lines that make a query -/

namespace Session

variable {s : Session} {line : Text} {q : Query}

/-- A line that makes a query is one of two. -/
theorem text_of_query? (hq : Console.query? line = some q) :
    line = Text.ofString ":c" ∨ line = Text.ofString ":w" := by
  obtain ⟨m, hm, hmq⟩ := Option.bind_eq_some_iff.mp hq
  rw [text_of_ofText? hm]
  cases m with
  | check => exact .inl rfl
  | needed => exact .inr rfl
  | back | forward | reset | skip | help | negation | unicode | quit => contradiction

/-- A line that makes a query is answered, and nothing else happens. -/
theorem exec_query (hopen : s.isDone = false) (hq : Console.query? line.trim = some q)
    (canceled : Bool) : s.exec canceled line = ⟨s, [], s.answer canceled q⟩ := by
  obtain ⟨m, hm, hmq⟩ := Option.bind_eq_some_iff.mp hq
  rw [exec_meta hopen (text_of_ofText? hm)]
  cases m with
  | check =>
      obtain rfl : Query.check = q := Option.some.inj hmq
      rfl
  | needed =>
      obtain rfl : Query.needed = q := Option.some.inj hmq
      rfl
  | back | forward | reset | skip | help | negation | unicode | quit => contradiction

/-- Blanks around a line do not matter. -/
theorem exec_trim (s : Session) (canceled : Bool) (line : Text) :
    s.exec canceled line.trim = s.exec canceled line := by
  rw [exec, exec, Text.trim_trim]

/-- Options that differ in the display only. -/
def SameQueries (o o' : SessionOptions) : Prop := o' = { o with display := o'.display }

theorem Change.sameQueries {s' : Session} (h : s.Change s') :
    SameQueries s.options s'.options := by
  cases h <;> rfl

/-- How queries are answered never changes. -/
theorem sameQueries_runLines (s : Session) (lines : List Text) :
    SameQueries s.options (s.runLines lines).options := by
  induction lines using List.reverseRecOn with
  | nil => rfl
  | append_singleton lines line ih =>
      rw [runLines_concat]
      have hsame := (change_exec (s.runLines lines) false line).sameQueries
      rw [SameQueries] at ih hsame ⊢
      rw [hsame, ih]

theorem SameQueries.answer_eq {o o' : SessionOptions} (h : SameQueries o o') (q : Query)
    (canceled : Bool) (goal : Sequent) :
    q.answer o'.solver o'.source (Interruption.of? canceled o'.limit) goal =
      q.answer o.solver o.source (Interruption.of? canceled o.limit) goal := by
  rw [h]

end Session

/-! ## What an event does -/

namespace Console

/-- The line that an event submits: what has been typed, if it is the enter key
and the help is not shown. -/
def submission? (c : Console) : ConsoleEvent → Option Text
  | .key .enter => if c.showsHelp then none else some c.prompt.text
  | _ => none

/-- Nothing is asked for, the console is waiting for an answer as before, and its
session is the given one. -/
structure Quiet (c : Console) (s : Session) (next : Console × Option ConsoleRequest) : Prop where
  session_eq : next.1.session = s
  isChecking_eq : next.1.isChecking = c.isChecking
  not_check : ∀ q goal, next.2 ≠ some (.check q goal)

/-- What an event can do: leave the session alone, execute the line that it
submits, or ask for a check of the current goal if there is no other check. -/
inductive Effect (c : Console) : Option Text → Console × Option ConsoleRequest → Prop where
  | idle {next : Console × Option ConsoleRequest} (h : c.Quiet c.session next) : Effect c none next
  | executed {line : Text} {next : Console × Option ConsoleRequest}
      (h : c.Quiet (c.session.exec false line).session next) : Effect c (some line) next
  | asked {line : Text} {q : Query} {c' : Console} (hquery : query? line.trim = some q)
      (hopen : c.session.isDone = false) (hfree : c.isChecking = false)
      (hsession : c'.session = c.session) (hchecking : c'.isChecking = true) :
      Effect c (some line) (c', some (.check q c.session.goal))

variable {c : Console}

@[simp] theorem session_refreshed (c : Console) : c.refreshed.session = c.session := by
  rw [refreshed]
  split <;> rfl

@[simp] theorem isChecking_refreshed (c : Console) : c.refreshed.isChecking = c.isChecking := by
  rw [refreshed]
  split <;> rfl

/-- Without a request only the session and whether there is a check matter. -/
theorem Quiet.of_none {c' : Console} {s : Session} (hsession : c'.session = s)
    (hchecking : c'.isChecking = c.isChecking) : c.Quiet s (c', none) :=
  ⟨hsession, hchecking, fun _ _ => (Option.some_ne_none _).symm⟩

theorem quiet_settle (c : Console) (o : Outcome) : c.Quiet c.session (c.settle o) := by
  cases o with
  | help => exact .of_none rfl rfl
  | quit | finished => exact ⟨rfl, rfl, nofun⟩
  | applied | solved | moved | next _ | negation _ | unicode _ | verdict _ | unneeded _ =>
      exact .of_none (session_refreshed _) (isChecking_refreshed _)

/-- Only the session and whether there is a check matter for an effect. -/
theorem Effect.of_eq {d : Console} {line : Option Text} {next : Console × Option ConsoleRequest}
    (h : d.Effect line next) (hsession : d.session = c.session)
    (hchecking : d.isChecking = c.isChecking) : c.Effect line next := by
  cases h with
  | idle h =>
      exact .idle ⟨h.session_eq.trans hsession, h.isChecking_eq.trans hchecking, h.not_check⟩
  | executed h =>
      refine .executed ⟨?_, h.isChecking_eq.trans hchecking, h.not_check⟩
      rw [h.session_eq, hsession]
  | asked hquery hopen hfree hsame hnow =>
      rw [hsession] at hopen hsame ⊢
      exact .asked hquery hopen (hchecking.symm.trans hfree) hsame hnow

/-- Executing a line, without the blanks around it. -/
theorem effect_execLine (c : Console) (line : Text) :
    c.Effect (some line) (c.execLine line.trim) := by
  rw [execLine, Session.exec_trim]
  split
  · exact .executed (.of_none rfl rfl)
  · next o _ =>
      have hsettle := quiet_settle { c with session := (c.session.exec false line).session } o
      exact .executed ⟨hsettle.session_eq, hsettle.isChecking_eq, hsettle.not_check⟩

/-- Asking for a check.  A second check is refused, and then nothing happens to
the session; nor would it if the line were executed. -/
theorem effect_ask {line : Text} {q : Query} (hquery : query? line.trim = some q)
    (hopen : c.session.isDone = false) : c.Effect (some line) (c.ask q) := by
  rw [ask]
  split
  · refine .executed (.of_none ?_ rfl)
    rw [Session.exec_query hopen hquery]
    rfl
  · next hfree => exact .asked hquery hopen (Bool.eq_false_iff.mpr hfree) rfl rfl

/-- The console with a line noted as one that has been executed, which touches
neither the session nor the check. -/
def noted (c : Console) (line : Text) : Console :=
  { c with past := if line.isEmpty then c.past else c.past ++ [line], recalled := none }

theorem submit_of_query? {line : Text} {q : Query} (hquery : query? line.trim = some q) :
    c.submit line =
      if c.session.isDone then (c.noted line.trim).execLine line.trim
      else (c.noted line.trim).ask q := by
  rw [submit, hquery]
  rfl

theorem submit_of_query?_eq_none {line : Text} (hquery : query? line.trim = none) :
    c.submit line = (c.noted line.trim).execLine line.trim := by
  rw [submit, hquery]
  rfl

theorem effect_submit (c : Console) (line : Text) : c.Effect (some line) (c.submit line) := by
  have hexec : c.Effect (some line) ((c.noted line.trim).execLine line.trim) :=
    (effect_execLine (c.noted line.trim) line).of_eq rfl rfl
  cases hquery : query? line.trim with
  | none =>
      rw [submit_of_query?_eq_none hquery]
      exact hexec
  | some q =>
      rw [submit_of_query? hquery]
      split
      · exact hexec
      · next hdone =>
          have hopen : (c.noted line.trim).session.isDone = false := Bool.eq_false_iff.mpr hdone
          exact (effect_ask hquery hopen).of_eq rfl rfl

theorem quiet_recallUp (c : Console) : c.Quiet c.session (c.recallUp, none) := by
  rw [recallUp]
  split
  · exact .of_none rfl rfl
  · split <;> exact .of_none rfl rfl

theorem quiet_recallDown (c : Console) : c.Quiet c.session (c.recallDown, none) := by
  rw [recallDown]
  split
  · exact .of_none rfl rfl
  · split <;> exact .of_none rfl rfl

theorem quiet_typed (c : Console) (t : Text) : c.Quiet c.session (c.typed t, none) := by
  rw [typed]
  split <;> exact .of_none rfl rfl

/-- A key has an effect while the drawing is shown. -/
theorem effect_promptKey (k : Key) (hhelp : c.showsHelp = false) :
    c.Effect (c.submission? (.key k)) (c.promptKey k) := by
  cases k with
  | enter =>
      rw [submission?, hhelp]
      exact (effect_submit { c with prompt := c.prompt.setText [] } c.prompt.text).of_eq rfl rfl
  | up => exact .idle (quiet_recallUp c)
  | down => exact .idle (quiet_recallDown c)
  | escape | pageUp | pageDown | interrupt | endOfInput | edit _ => exact .idle ⟨rfl, rfl, nofun⟩

theorem effect_helpKey (k : Key) (hhelp : c.showsHelp = true) :
    c.Effect (c.submission? (.key k)) (c.helpKey k) := by
  have hnone : c.submission? (.key k) = none := by
    cases k <;> simp [submission?, hhelp]
  rw [hnone]
  cases k <;> exact .idle ⟨rfl, rfl, nofun⟩

/-- **Every event but an answer has one of the effects.** -/
theorem effect_update (c : Console) {e : ConsoleEvent} (he : ∀ result, e ≠ .answered result) :
    c.Effect (c.submission? e) (c.update e) := by
  cases e with
  | resize width height => exact .idle (.of_none (session_refreshed _) (isChecking_refreshed _))
  | typed t =>
      rw [update]
      split
      · exact .idle (.of_none rfl rfl)
      · exact .idle (quiet_typed c t)
  | key k =>
      rw [update]
      split
      · next hhelp => exact effect_helpKey k hhelp
      · next hhelp => exact effect_promptKey k (Bool.eq_false_iff.mpr hhelp)
  | answered result => exact absurd rfl (he result)

/-- The wording of an answer, and whether it tells of an error. -/
def wording : Except SessionError Outcome → String × Bool
  | .ok o => (o.message, false)
  | .error e => (e.message, true)

/-- An answer shows in the status line and ends the check, and that is all. -/
theorem answered_eq (c : Console) (result : Except SessionError Outcome) :
    c.answered result =
      { c with
        isChecking := false
        status := (wording result).1
        isError := (wording result).2 } := by
  cases result <;> rfl

end Console

/-! ## Terminals -/

/-- A check that has been asked for, and how many lines had been submitted
before the one that asked for it. -/
structure Errand where
  query : Query
  goal : Sequent
  moment : Nat
deriving DecidableEq

namespace Errand

/-- The check that a console asks for at a moment, if it asks for one. -/
def of? (moment : Nat) : Option ConsoleRequest → Option Errand
  | some (.check query goal) => some ⟨query, goal, moment⟩
  | _ => none

/-- What the check finds. -/
def result (e : Errand) (options : SessionOptions) : Except SessionError Outcome :=
  e.query.answer options.solver options.source (Interruption.of? false options.limit) e.goal

/-- The check has been asked for by the line at its moment, and is about the goal
of that moment. -/
def StemsFrom (s : Session) (lines : List Text) (e : Errand) : Prop :=
  ∃ line, lines[e.moment]? = some line ∧ Console.query? line.trim = some e.query ∧
    (s.runLines (lines.take e.moment)).isDone = false ∧
    e.goal = (s.runLines (lines.take e.moment)).goal

theorem of?_eq_none {moment : Nat} {request : Option ConsoleRequest}
    (h : ∀ q goal, request ≠ some (.check q goal)) : of? moment request = none := by
  rw [of?]
  exact h

variable {s : Session} {lines : List Text} {e : Errand}

/-- Later lines do not change where a check comes from. -/
theorem StemsFrom.append (h : e.StemsFrom s lines) (more : List Text) :
    e.StemsFrom s (lines ++ more) := by
  obtain ⟨line, hline, hquery, hopen, hgoal⟩ := h
  have hlt : e.moment < lines.length := (List.getElem?_eq_some_iff.mp hline).1
  refine ⟨line, ?_, hquery, ?_, ?_⟩
  · rw [List.getElem?_append_left hlt, hline]
  · rw [List.take_append_of_le_length hlt.le, hopen]
  · rw [List.take_append_of_le_length hlt.le, hgoal]

/-- A check finds what executing its line would have answered at its moment. -/
theorem StemsFrom.exists_result_eq (h : e.StemsFrom s lines) (later : List Text) :
    ∃ line, lines[e.moment]? = some line ∧
      (line.trim = Text.ofString ":c" ∨ line.trim = Text.ofString ":w") ∧
      e.result (s.runLines later).options =
        ((s.runLines (lines.take e.moment)).exec false line).result := by
  obtain ⟨line, hline, hquery, hopen, hgoal⟩ := h
  refine ⟨line, hline, Session.text_of_query? hquery, ?_⟩
  have hlater := s.sameQueries_runLines later
  have hthen := s.sameQueries_runLines (lines.take e.moment)
  rw [Session.exec_query hopen hquery, result, Session.answer, hgoal, hlater.answer_eq,
    hthen.answer_eq]

end Errand

/-- A console, the checks it has asked for and not been told about, and the
lines that have been submitted. -/
structure Terminal where
  console : Console
  inFlight : List Errand := []
  submitted : List Text := []

/-- What happens at a terminal. -/
inductive TerminalEvent where
  | resize (width height : Int)
  | typed (t : Text)
  | key (k : Key)
  /-- The result of a check is delivered, of any of those in flight. -/
  | result (n : Nat)

namespace Terminal

/-- The console handles an event.  What it asks for is in flight from then on. -/
def handle (e : ConsoleEvent) (t : Terminal) : Terminal :=
  let next := t.console.update e
  { console := next.1
    inFlight := t.inFlight ++ (Errand.of? t.submitted.length next.2).toList
    submitted := t.submitted ++ (t.console.submission? e).toList }

/-- What happens next. -/
def step (t : Terminal) : TerminalEvent → Terminal
  | .resize width height => t.handle (.resize width height)
  | .typed text => t.handle (.typed text)
  | .key k => t.handle (.key k)
  | .result n =>
    match t.inFlight[n]? with
    | none => t
    | some e =>
      { t with inFlight := t.inFlight.eraseIdx n }.handle
        (.answered (e.result t.console.session.options))

/-- The terminal after a list of events. -/
def run (t : Terminal) (es : List TerminalEvent) : Terminal := es.foldl step t

/-- The terminal for a session. -/
def start (s : Session) : Terminal := { console := Console.start s }

/-! ## What holds after every event -/

/-- The console is where the submitted lines lead from `s`, and waits for the
one check that is in flight, if there is one. -/
structure Tracks (t : Terminal) (s : Session) : Prop where
  session_eq : t.console.session = s.runLines t.submitted
  length_inFlight : t.inFlight.length = if t.console.isChecking then 1 else 0
  stemsFrom : ∀ e ∈ t.inFlight, e.StemsFrom s t.submitted

variable {t : Terminal} {s : Session}

theorem tracks_start (s : Session) : (start s).Tracks s := ⟨rfl, rfl, nofun⟩

/-- Where no check is going on, none is in flight. -/
theorem Tracks.inFlight_eq_nil (h : t.Tracks s) (hfree : t.console.isChecking = false) :
    t.inFlight = [] := by
  have hlength := h.length_inFlight
  rw [hfree] at hlength
  exact List.eq_nil_of_length_eq_zero hlength

theorem Tracks.handle (h : t.Tracks s) {e : ConsoleEvent} (he : ∀ result, e ≠ .answered result) :
    (t.handle e).Tracks s := by
  have heffect := t.console.effect_update he
  rw [Terminal.handle]
  generalize t.console.submission? e = line at heffect ⊢
  generalize t.console.update e = next at heffect ⊢
  cases heffect with
  | idle hquiet =>
      rw [Errand.of?_eq_none hquiet.not_check]
      simp only [Option.toList_none, List.append_nil]
      refine ⟨hquiet.session_eq.trans h.session_eq, ?_, h.stemsFrom⟩
      rw [hquiet.isChecking_eq, h.length_inFlight]
  | @executed line _ hquiet =>
      rw [Errand.of?_eq_none hquiet.not_check]
      simp only [Option.toList_none, List.append_nil, Option.toList_some]
      refine ⟨?_, ?_, fun e he => (h.stemsFrom e he).append [line]⟩
      · rw [hquiet.session_eq, h.session_eq, Session.runLines_concat]
      · rw [hquiet.isChecking_eq, h.length_inFlight]
  | @asked line q c hquery hopen hfree hsession hchecking =>
      rw [h.session_eq] at hopen hsession ⊢
      rw [h.inFlight_eq_nil hfree]
      refine ⟨?_, ?_, ?_⟩
      · rw [hsession, Option.toList_some, Session.runLines_concat, Session.exec_query hopen hquery]
      · rw [hchecking]
        rfl
      · intro e he
        obtain rfl : e = ⟨q, (s.runLines t.submitted).goal, t.submitted.length⟩ := by
          simpa [Errand.of?] using he
        exact ⟨line, by simp, hquery, by simpa using hopen, by simp⟩

/-- Delivering a result takes the check out of flight and changes the status and
the mark of the check. -/
theorem step_result {n : Nat} {e : Errand} (hn : t.inFlight[n]? = some e) :
    t.step (.result n) =
      { t with
        inFlight := t.inFlight.eraseIdx n
        console := t.console.answered (e.result t.console.session.options) } := by
  rw [step, hn]
  simp [handle, Console.update, Console.submission?, Errand.of?]

theorem Tracks.result (h : t.Tracks s) (n : Nat) : (t.step (.result n)).Tracks s := by
  cases hn : t.inFlight[n]? with
  | none =>
      rw [step, hn]
      exact h
  | some e =>
      rw [step_result hn, Console.answered_eq]
      refine ⟨h.session_eq, ?_, fun e he => h.stemsFrom e (List.mem_of_mem_eraseIdx he)⟩
      have hlt : n < t.inFlight.length := (List.getElem?_eq_some_iff.mp hn).1
      have hlength := h.length_inFlight
      simp only [List.length_eraseIdx_of_lt hlt, Bool.false_eq_true, if_false]
      split at hlength <;> omega

theorem Tracks.step (h : t.Tracks s) (e : TerminalEvent) : (t.step e).Tracks s := by
  cases e with
  | resize width height => exact h.handle nofun
  | typed text => exact h.handle nofun
  | key k => exact h.handle nofun
  | result n => exact h.result n

theorem tracks_run (s : Session) (es : List TerminalEvent) : ((start s).run es).Tracks s := by
  have hrun : ∀ t : Terminal, t.Tracks s → (t.run es).Tracks s := by
    induction es with
    | nil => exact fun _ h => h
    | cons e es ih => exact fun t h => ih _ (h.step e)
  exact hrun _ (tracks_start s)

/-! ## Screens -/

/-- The events of a screen that an event of a terminal is.  A screen knows of one
check only, the first one in flight. -/
def screenEvents : TerminalEvent → List ScreenEvent
  | .resize width height => [.event (.resize width height)]
  | .typed text => [.event (.typed text)]
  | .key k => [.event (.key k)]
  | .result 0 => [.makeCheck]
  | .result (_ + 1) => []

/-- The screen has the console of the terminal and waits for its first check. -/
structure ShownBy (t : Terminal) (screen : Screen) : Prop where
  console_eq : screen.console = t.console
  pending_eq : screen.pending = t.inFlight.head?.map fun e => (e.query, e.goal)

theorem ShownBy.handle {screen : Screen} (hshown : t.ShownBy screen) (h : t.Tracks s)
    {e : ConsoleEvent} (he : ∀ result, e ≠ .answered result) :
    (t.handle e).ShownBy (screen.deliver e) := by
  have heffect := t.console.effect_update he
  rw [Terminal.handle, Screen.deliver, hshown.console_eq]
  generalize t.console.submission? e = line at heffect ⊢
  generalize t.console.update e = next at heffect ⊢
  obtain ⟨c, request⟩ := next
  match request with
  | none => exact ⟨rfl, by simpa [Errand.of?] using hshown.pending_eq⟩
  | some .quit => exact ⟨rfl, by simpa [Errand.of?] using hshown.pending_eq⟩
  | some (.check q goal) =>
      cases heffect with
      | idle hquiet => exact absurd rfl (hquiet.not_check q goal)
      | executed hquiet => exact absurd rfl (hquiet.not_check q goal)
      | asked _ _ hfree _ _ =>
          have hnone : t.inFlight = [] := h.inFlight_eq_nil hfree
          exact ⟨rfl, by simp [Errand.of?, hnone]⟩

theorem ShownBy.result {screen : Screen} (hshown : t.ShownBy screen) (h : t.Tracks s) (n : Nat) :
    (t.step (.result n)).ShownBy ((screenEvents (.result n)).foldl Screen.step screen) := by
  obtain ⟨hconsole, hpending⟩ := hshown
  cases hn : t.inFlight[n]? with
  | none =>
      rw [step, hn]
      cases n with
      | succ n => exact ⟨hconsole, hpending⟩
      | zero =>
          have hhead : screen.pending = none := by
            rw [hpending, List.head?_eq_getElem?, hn]
            rfl
          simp only [screenEvents, List.foldl_cons, List.foldl_nil, Screen.step, hhead]
          exact ⟨hconsole, hhead.symm.trans hpending⟩
  | some e =>
      -- there is no second check in flight
      have hlength := h.length_inFlight
      have hlt : n < t.inFlight.length := (List.getElem?_eq_some_iff.mp hn).1
      obtain rfl : n = 0 := by split at hlength <;> omega
      have hhead : screen.pending = some (e.query, e.goal) := by
        rw [hpending, List.head?_eq_getElem?, hn]
        rfl
      have hnone : t.inFlight.eraseIdx 0 = [] := by
        apply List.eq_nil_of_length_eq_zero
        rw [List.length_eraseIdx_of_lt hlt]
        split at hlength <;> omega
      rw [step_result hn, hnone]
      simp only [screenEvents, List.foldl_cons, List.foldl_nil, Screen.step, hhead]
      exact ⟨by rw [hconsole]; rfl, rfl⟩

/-- **A screen has room for one check, and needs no more.**  Whatever happens, it
shows the console of the terminal and waits for the check in flight. -/
theorem shownBy_run (s : Session) (es : List TerminalEvent) :
    ((start s).run es).ShownBy ((es.flatMap screenEvents).foldl Screen.step (Screen.start s)) := by
  have hrun : ∀ (t : Terminal) (screen : Screen), t.Tracks s → t.ShownBy screen →
      (t.run es).ShownBy ((es.flatMap screenEvents).foldl Screen.step screen) := by
    induction es with
    | nil => exact fun _ _ _ h => h
    | cons e es ih =>
        intro t screen htracks hshown
        rw [List.flatMap_cons, List.foldl_append]
        apply ih _ _ (htracks.step e)
        cases e with
        | resize width height => exact hshown.handle htracks nofun
        | typed text => exact hshown.handle htracks nofun
        | key k => exact hshown.handle htracks nofun
        | result n => exact hshown.result htracks n
  exact hrun _ _ (tracks_start s) ⟨rfl, rfl⟩

/-! ## All runs -/

/-- **A console refines its session, whatever the interleaving.**  After any
events, checks being answered at any later time and in any order, the session
is where executing the submitted lines leads; and the screen, which has room for
one check, shows the same console.  At most one check is in flight, and the
console knows whether one is.  What a check finds is what the session would have
answered to the line that asked for it at that moment, whatever has been
executed since; and delivering it changes the status line and the mark of the
check only. -/
theorem run_refines (s : Session) (es : List TerminalEvent) :
    let t := (start s).run es
    t.console.session = s.runLines t.submitted ∧
    ((es.flatMap screenEvents).foldl Screen.step (Screen.start s)).console = t.console ∧
    t.inFlight.length ≤ 1 ∧ (t.console.isChecking = true ↔ t.inFlight ≠ []) ∧
    ∀ n e, t.inFlight[n]? = some e → ∃ line, t.submitted[e.moment]? = some line ∧
      (line.trim = Text.ofString ":c" ∨ line.trim = Text.ofString ":w") ∧
      let result := ((s.runLines (t.submitted.take e.moment)).exec false line).result
      e.result t.console.session.options = result ∧
      t.step (.result n) =
        { t with
          inFlight := t.inFlight.eraseIdx n
          console :=
            { t.console with
              isChecking := false
              status := (Console.wording result).1
              isError := (Console.wording result).2 } } := by
  intro t
  have h : t.Tracks s := tracks_run s es
  refine ⟨h.session_eq, (shownBy_run s es).console_eq, ?_, ?_, ?_⟩
  · rw [h.length_inFlight]
    split <;> omega
  · rw [ne_eq, ← List.length_eq_zero_iff, h.length_inFlight]
    cases t.console.isChecking <;> simp
  · intro n e hn
    obtain ⟨line, hline, htext, hresult⟩ :=
      (h.stemsFrom e (List.mem_of_getElem? hn)).exists_result_eq t.submitted
    rw [← h.session_eq] at hresult
    refine ⟨line, hline, htext, hresult, ?_⟩
    rw [step_result hn, Console.answered_eq, hresult]

/-- A check is asked for, the goal loses its hypothesis and a second check is
refused.  The result of the first check is still about the goal at the start: it
names the hypothesis that has gone. -/
theorem run_refines_late :
    let A : Formula := .var ⟨⟨'A', rfl⟩, []⟩
    let q : Sequent := ⟨[A], .impl A A⟩
    let s : Session := ⟨[q], 0, .start (.goal q), { display := { style := .default } }⟩
    let t := (start s).run
      [.typed (Text.ofString ":w"), .key .enter, .typed (Text.ofString "aff 0"), .key .enter,
        .typed (Text.ofString ":c"), .key .enter]
    t.inFlight[0]? = some ⟨.needed, q, 0⟩ ∧ t.console.session.goal = ⟨[], .impl A A⟩ ∧
      t.console.status = "a check is already running" ∧
      (t.step (.result 0)).console.status = "hypotheses not needed: aff 0" := by
  intro A q s t
  have hn : t.inFlight[0]? = some ⟨.needed, q, 0⟩ := by decide +kernel
  obtain ⟨line, hline, -, -, hstep⟩ := (run_refines s _).2.2.2.2 0 ⟨.needed, q, 0⟩ hn
  have hfirst : t.submitted[0]? = some (Text.ofString ":w") := by decide +kernel
  obtain rfl : line = Text.ofString ":w" := Option.some.inj (hline.symm.trans hfirst)
  refine ⟨hn, by decide +kernel, by decide +kernel, ?_⟩
  rw [hstep]
  decide +kernel

end Terminal

end Sequitur
