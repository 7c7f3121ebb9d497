import Sequitur.Proofs.Session.Timeline

/-!
# Sequitur.Proofs.Session.Cursor

A history keeps what was done and what was undone on either side of the present.
Seen from outside it is a list of states with a position in it, a `Cursor`: a new
state cuts the list off behind the position, undoing and redoing move the position
by one and leave the list alone, and a reset goes back to the list of the first
state.

`cursor_perform` says this of one move.  A history and a cursor that start together
are therefore never told apart, whatever moves are made (`cursor_run`), and what was
undone can be redone (`redo_of_undo`, `run_redo_of_run_undo`).
-/

namespace Sequitur

namespace History

/-! ## Moves -/

/-- What can be done with a history. -/
inductive Move (α : Type) where
  | push (a : α)
  | undo
  | redo
  | reset

namespace Move

variable {α σ : Type}

/-- Makes moves one after the other: where they lead, and for each of them whether
it could be made. -/
def run (perform : σ → Move α → σ × Bool) (s : σ) : List (Move α) → σ × List Bool
  | [] => (s, [])
  | m :: ms =>
    let after := perform s m
    let ran := run perform after.1 ms
    (ran.1, after.2 :: ran.2)

theorem run_cons (perform : σ → Move α → σ × Bool) (s : σ) (m : Move α) (ms : List (Move α)) :
    run perform s (m :: ms) =
      ((run perform (perform s m).1 ms).1,
        (perform s m).2 :: (run perform (perform s m).1 ms).2) := rfl

theorem run_append (perform : σ → Move α → σ × Bool) (s : σ) (ms ns : List (Move α)) :
    run perform s (ms ++ ns) =
      ((run perform (run perform s ms).1 ns).1,
        (run perform s ms).2 ++ (run perform (run perform s ms).1 ns).2) := by
  induction ms generalizing s with
  | nil => rfl
  | cons m ms ih => rw [List.cons_append, run_cons, run_cons, ih, List.cons_append]

end Move

/-! ## Cursors -/

/-- States in order, and the position of the present one. -/
@[ext]
structure Cursor (α : Type) where
  states : List α
  position : Nat
  position_lt : position < states.length

namespace Cursor

variable {α : Type}

/-- The state at the position. -/
def current (c : Cursor α) : α := c.states.get ⟨c.position, c.position_lt⟩

/-- A single state. -/
def start (root : α) : Cursor α := ⟨[root], 0, Nat.zero_lt_one⟩

/-- Makes a move.  The states after the position are discarded when a new one is
appended.  The position does not move beyond either end, where nothing changes and
the answer is no. -/
def perform (root : α) (c : Cursor α) : Move α → Cursor α × Bool
  | .push a =>
    (⟨c.states.take (c.position + 1) ++ [a], c.position + 1, by
      have hlt := c.position_lt
      rw [List.length_append, List.length_take, List.length_singleton]
      omega⟩, true)
  | .undo =>
    if c.position = 0 then (c, false)
    else (⟨c.states, c.position - 1, Nat.lt_of_le_of_lt (Nat.sub_le _ 1) c.position_lt⟩, true)
  | .redo =>
    if h : c.position + 1 < c.states.length then (⟨c.states, c.position + 1, h⟩, true)
    else (c, false)
  | .reset => (start root, true)

end Cursor

/-! ## Histories as cursors -/

variable {α : Type} {h h' : History α}

/-- What is left of an attempt, and whether it succeeded. -/
def orStay (h : History α) : Option (History α) → History α × Bool
  | none => (h, false)
  | some h' => (h', true)

/-- Makes a move. -/
def perform (h : History α) : Move α → History α × Bool
  | .push a => (h.push a, true)
  | .undo => h.orStay h.undo?
  | .redo => h.orStay h.redo?
  | .reset => (h.reset, true)

/-- The timeline, with the present at its position. -/
def cursor (h : History α) : Cursor α := ⟨h.timeline, h.steps, by simp [timeline, steps]⟩

theorem current_cursor (h : History α) : h.cursor.current = h.present := by
  have hpresent := h.timeline_steps
  obtain ⟨_, hget⟩ := List.getElem?_eq_some_iff.mp hpresent
  exact hget

/-- What holds here and wherever an attempt may lead holds after it. -/
theorem forall_orStay {P : History α → Prop} {attempt : Option (History α)} (hstay : P h)
    (hmove : ∀ h', attempt = some h' → P h') : P (h.orStay attempt).1 := by
  cases attempt with
  | none => exact hstay
  | some h' => exact hmove h' rfl

theorem root_perform (h : History α) (m : Move α) : (h.perform m).1.root = h.root := by
  cases m with
  | push a => rfl
  | undo => exact forall_orStay (P := fun g => g.root = h.root) rfl fun _ => root_undo
  | redo => exact forall_orStay (P := fun g => g.root = h.root) rfl fun _ => root_redo
  | reset => rfl

/-- **One move.**  A history answers as its cursor does, and goes where it goes. -/
theorem cursor_perform (h : History α) (m : Move α) :
    h.cursor.perform h.root m = ((h.perform m).1.cursor, (h.perform m).2) := by
  obtain ⟨root, past, present, future⟩ := h
  cases m with
  | push a =>
      apply Prod.ext
      · ext1
        · have hpast : past.reverse.take (past.length + 1) = past.reverse :=
            List.take_of_length_le (by simp)
          simp [Cursor.perform, perform, cursor, timeline, steps, push, List.take_append, hpast]
        · rfl
      · rfl
  | undo =>
      cases past with
      | nil => rfl
      | cons a past =>
          apply Prod.ext
          · ext1
            · simp [Cursor.perform, perform, orStay, undo?, cursor, timeline, steps]
            · rfl
          · rfl
  | redo =>
      cases future with
      | nil => simp [Cursor.perform, perform, orStay, redo?, cursor, timeline, steps]
      | cons a future => simp [Cursor.perform, perform, orStay, redo?, cursor, timeline, steps]
  | reset => rfl

/-- **Any number of moves.** -/
theorem cursor_run (h : History α) (ms : List (Move α)) :
    Move.run (Cursor.perform h.root) h.cursor ms =
      ((Move.run perform h ms).1.cursor, (Move.run perform h ms).2) := by
  induction ms generalizing h with
  | nil => rfl
  | cons m ms ih =>
      have hrest := ih (h.perform m).1
      rw [root_perform] at hrest
      rw [Move.run_cons, cursor_perform, hrest, Move.run_cons]

/-! ## Back and forth -/

/-- What was undone is redone. -/
theorem redo_of_undo (hundo : h.undo? = some h') : h'.redo? = some h := by
  rw [undo?] at hundo
  split at hundo
  · contradiction
  · next a past hpast =>
      cases hundo
      rw [redo?, ← hpast]

theorem perform_undo_eq_true (hundo : (h.perform .undo).2 = true) :
    h.undo? = some (h.perform .undo).1 := by
  rw [perform] at hundo ⊢
  cases hback : h.undo? with
  | none => rw [hback] at hundo; contradiction
  | some h' => rfl

/-- **As many steps forth as back.** -/
theorem run_redo_of_run_undo {n : Nat}
    (hundo : Move.run perform h (List.replicate n .undo) = (h', List.replicate n true)) :
    Move.run perform h' (List.replicate n .redo) = (h, List.replicate n true) := by
  induction n generalizing h with
  | zero =>
      cases hundo
      rfl
  | succ n ih =>
      rw [List.replicate_succ, Move.run_cons, Prod.mk.injEq, List.replicate_succ,
        List.cons.injEq] at hundo
      obtain ⟨hlast, hfirst, hmore⟩ := hundo
      have hback := ih (Prod.ext hlast hmore)
      have hforth : (h.perform .undo).1.perform .redo = (h, true) := by
        have hredo := redo_of_undo (perform_undo_eq_true hfirst)
        change orStay _ (redo? _) = _
        rw [hredo, orStay]
      rw [List.replicate_succ', Move.run_append, hback, Move.run_cons, hforth,
        List.replicate_succ']
      rfl

/-- Going back and forth leaves all states where they are. -/
theorem timeline_run {ms : List (Move α)} (hms : ∀ m ∈ ms, m = .undo ∨ m = .redo) :
    (Move.run perform h ms).1.timeline = h.timeline := by
  induction ms generalizing h with
  | nil => rfl
  | cons m ms ih =>
      obtain ⟨hm, hrest⟩ := List.forall_mem_cons.mp hms
      have hfirst : (h.perform m).1.timeline = h.timeline := by
        rcases hm with rfl | rfl
        · exact forall_orStay (P := fun g => g.timeline = h.timeline) rfl fun _ => timeline_undo
        · exact forall_orStay (P := fun g => g.timeline = h.timeline) rfl fun _ => timeline_redo
      exact (ih hrest).trans hfirst

/-- **A history is a timeline with a cursor.**  Whatever moves are made from a first
state on, a history gives the answers that a list of states with a position gives,
and the two agree on the states, on the number of steps, which is the position, and
on the present, which is the state at it.  After any number of moves back that could
be made, as many moves forth can be made and restore the history, and no move back or
forth changes which states there are or their order. -/
theorem run_follows_cursor (root : α) (ms : List (Move α)) :
    let ran := Move.run perform (start root) ms
    let moved := Move.run (Cursor.perform root) (Cursor.start root) ms
    ran.2 = moved.2 ∧
    ran.1.past.reverse ++ ran.1.present :: ran.1.future = moved.1.states ∧
    ran.1.steps = moved.1.position ∧
    ran.1.present = moved.1.current ∧
    (∀ (n : Nat) (h : History α),
      Move.run perform ran.1 (List.replicate n .undo) = (h, List.replicate n true) →
      Move.run perform h (List.replicate n .redo) = (ran.1, List.replicate n true)) ∧
    ∀ ns : List (Move α), (∀ m ∈ ns, m = .undo ∨ m = .redo) →
      (Move.run perform ran.1 ns).1.timeline = ran.1.timeline := by
  intro ran moved
  have hmoved : moved = (ran.1.cursor, ran.2) := cursor_run (start root) ms
  rw [hmoved]
  exact ⟨rfl, rfl, rfl, (current_cursor ran.1).symm, fun _ _ => run_redo_of_run_undo,
    fun _ => timeline_run⟩

/-- After two new states, two moves back can be made and a third cannot; two moves
forth restore the history.  A new state in the middle makes the later one vanish. -/
theorem run_follows_cursor_back_and_forth :
    let two : History Nat := ⟨0, [1, 0], 2, []⟩
    let undone : History Nat := ⟨0, [], 0, [1, 2]⟩
    Move.run perform (start 0) [.push 1, .push 2] = (two, [true, true]) ∧
      Move.run perform two [.undo, .undo] = (undone, [true, true]) ∧
      Move.run perform undone [.redo, .redo] = (two, [true, true]) ∧
      undone.perform .undo = (undone, false) ∧
      (Move.run perform two [.undo, .redo, .redo, .undo]).1.timeline = [0, 1, 2] ∧
      (Move.run (Cursor.perform 0) (Cursor.start 0)
        [.push 1, .push 2, .undo, .push 3]).1.states = [0, 1, 3] := by
  intro two undone
  obtain ⟨-, -, -, -, hforth, hkeeps⟩ := run_follows_cursor 0 [.push 1, .push 2]
  obtain ⟨-, hstates, -⟩ := run_follows_cursor 0 [.push 1, .push 2, .undo, .push 3]
  have hback : Move.run perform two [.undo, .undo] = (undone, [true, true]) := rfl
  exact ⟨rfl, hback, hforth 2 undone hback, rfl,
    hkeeps [.undo, .redo, .redo, .undo] (by simp), hstates.symm⟩

end History

end Sequitur
