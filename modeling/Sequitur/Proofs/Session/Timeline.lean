import Mathlib.Data.List.Chain
import Sequitur.Proofs.Derivation.Count
import Sequitur.Proofs.Session.Reachable

/-!
# Sequitur.Proofs.Session.Timeline

The states of a history in order, the undone ones included.  Undoing and
redoing move the present along the timeline and leave the timeline itself as
it is; a new state cuts it off behind the present.  So a timeline in which
each state leads to the next stays one (`Linked`), whatever is done.

In a session each state leads to the next by a request.  A request proves one
node, so the timeline also counts: the state at position `k` has `k` proved
nodes (`Tracks.proved_eq`), and the number of steps shown is the number of
proved nodes of the derivation shown.
-/

namespace Sequitur

/-! ## Linked histories -/

namespace History

variable {α : Type} {R : α → α → Prop} {h h' : History α}

/-- The timeline starts with the root, and each state leads to the next. -/
structure Linked (R : α → α → Prop) (h : History α) : Prop where
  head : h.timeline.head? = some h.root
  chain : h.timeline.IsChain R

theorem timeline_undo (hundo : h.undo? = some h') : h'.timeline = h.timeline := by
  rw [undo?] at hundo
  split at hundo
  · contradiction
  · next a past hpast =>
      cases hundo
      simp [timeline, hpast]

theorem timeline_redo (hredo : h.redo? = some h') : h'.timeline = h.timeline := by
  rw [redo?] at hredo
  split at hredo
  · contradiction
  · next a future hfuture =>
      cases hredo
      simp [timeline, hfuture]

theorem root_undo (hundo : h.undo? = some h') : h'.root = h.root := by
  rw [undo?] at hundo
  split at hundo
  · contradiction
  · cases hundo; rfl

theorem root_redo (hredo : h.redo? = some h') : h'.root = h.root := by
  rw [redo?] at hredo
  split at hredo
  · contradiction
  · cases hredo; rfl

/-- A new state comes right after the present. -/
theorem timeline_push (h : History α) (a : α) :
    (h.push a).timeline = h.past.reverse ++ [h.present, a] := by
  simp [timeline, push]

/-- The present stands behind as many states as there were steps. -/
theorem timeline_steps (h : History α) : h.timeline[h.steps]? = some h.present := by
  simp [timeline, steps]

theorem linked_start (a : α) : (start a).Linked R := ⟨rfl, .singleton a⟩

/-- The head of the timeline depends on the past and the present only. -/
theorem head?_timeline (h : History α) :
    h.timeline.head? = (h.past.reverse ++ [h.present]).head? := by
  simp [timeline, List.head?_append]

theorem Linked.push (hh : h.Linked R) {a : α} (ha : R h.present a) : (h.push a).Linked R := by
  constructor
  · have hpush : (h.push a).past.reverse = h.past.reverse ++ [h.present] := List.reverse_cons
    rw [head?_timeline, hpush, List.head?_append, ← head?_timeline, hh.head]
    rfl
  · have hchain := hh.chain
    rw [timeline, List.isChain_split] at hchain
    rw [timeline_push, List.isChain_split]
    exact ⟨hchain.1, .cons_cons ha (.singleton a)⟩

theorem Linked.undo (hh : h.Linked R) (hundo : h.undo? = some h') : h'.Linked R := by
  constructor
  · rw [timeline_undo hundo, root_undo hundo, hh.head]
  · rw [timeline_undo hundo]
    exact hh.chain

theorem Linked.redo (hh : h.Linked R) (hredo : h.redo? = some h') : h'.Linked R := by
  constructor
  · rw [timeline_redo hredo, root_redo hredo, hh.head]
  · rw [timeline_redo hredo]
    exact hh.chain

/-- What holds of the root and is carried along the links, with the position
counted, holds along the timeline. -/
theorem Linked.induction {P : Nat → α → Prop} (hh : h.Linked R) (hroot : P 0 h.root)
    (hstep : ∀ k a b, R a b → P k a → P (k + 1) b) {k : Nat} {a : α}
    (ha : h.timeline[k]? = some a) : P k a := by
  induction k generalizing a with
  | zero =>
      rw [← List.head?_eq_getElem?, hh.head] at ha
      obtain rfl : h.root = a := Option.some.inj ha
      exact hroot
  | succ k ih =>
      obtain ⟨hlt, rfl⟩ := List.getElem?_eq_some_iff.mp ha
      have hlink : R h.timeline[k] h.timeline[k + 1] := hh.chain.getElem k hlt
      exact hstep k _ _ hlink (ih (List.getElem?_eq_getElem _))

end History

/-! ## Sessions -/

namespace Derivation

/-- Some request leads from one derivation to the other. -/
def LeadsTo (d d' : Derivation) : Prop := ∃ r, d.proveNext r = .ok d'

/-- A complete derivation leads nowhere. -/
theorem LeadsTo.isComplete_eq_false {d d' : Derivation} (h : LeadsTo d d') :
    d.isComplete = false := by
  obtain ⟨r, hr⟩ := h
  obtain ⟨path, _, _, hpath, -⟩ := proveNext_eq_ok hr
  rw [isComplete, hpath]
  rfl

end Derivation

namespace Session

variable {s : Session}

/-- The history is about the current sequent: its root is the bare goal, and
requests lead from each state to the next. -/
structure Tracks (s : Session) (q : Sequent) : Prop where
  current : s.sequents[s.index]? = some q
  root : s.history.root = .goal q
  linked : s.history.Linked Derivation.LeadsTo

/-- Until all sequents have been seen, the history is about the current one. -/
theorem Reachable.exists_tracks (hs : s.Reachable) (hopen : s.isDone = false) :
    ∃ q, s.Tracks q := by
  revert hopen
  apply hs.induction
  · intro q sequents options _
    exact ⟨q, rfl, rfl, History.linked_start _⟩
  · intro s s' ih hchange hopen
    cases hchange with
    | none => exact ih hopen
    | styled st =>
        obtain ⟨q, hq⟩ := ih hopen
        exact ⟨q, hq.current, hq.root, hq.linked⟩
    | proved hd =>
        obtain ⟨q, hq⟩ := ih hopen
        exact ⟨q, hq.current, hq.root, hq.linked.push ⟨_, hd⟩⟩
    | undone hundo =>
        obtain ⟨q, hq⟩ := ih hopen
        exact ⟨q, hq.current, (History.root_undo hundo).trans hq.root, hq.linked.undo hundo⟩
    | redone hredo =>
        obtain ⟨q, hq⟩ := ih hopen
        exact ⟨q, hq.current, (History.root_redo hredo).trans hq.root, hq.linked.redo hredo⟩
    | reset =>
        obtain ⟨q, hq⟩ := ih hopen
        exact ⟨q, hq.current, hq.root, History.linked_start _⟩
    | next _ hnext => exact ⟨_, hnext, rfl, History.linked_start _⟩
    | finished _ hnone =>
        have hdone : s.sequents.length ≤ s.index + 1 := List.getElem?_eq_none_iff.mp hnone
        simp [isDone, hdone] at hopen

/-- A state of the timeline has as many proved nodes as there are states
before it. -/
theorem Tracks.proved_eq {q : Sequent} (h : s.Tracks q) {k : Nat} {d : Derivation}
    (hd : s.history.timeline[k]? = some d) : d.stats.proved = k := by
  apply h.linked.induction (P := fun k d => d.stats.proved = k) _ _ hd
  · rw [h.root, Derivation.stats_proved_goal]
  · rintro k d d' ⟨r, hr⟩ hk
    rw [Derivation.proved_proveNext hr, hk]

/-- **The timeline of a session.**  As long as a reachable session is not
done, its timeline starts with the bare goal of the current sequent, which is
the root of the history; a request leads from each state to the next, and the
state at position `k` has `k` proved nodes.  So the step in the status is the
number of proved nodes of the derivation that is shown, and no state but the
last is complete. -/
theorem Reachable.timeline_counts (hs : s.Reachable) (hopen : s.isDone = false) :
    let T : List Derivation := s.history.past.reverse ++ [s.history.present] ++ s.history.future
    (∃ q, s.sequents[s.index]? = some q ∧ T[0]? = some (.goal q) ∧ s.history.root = .goal q) ∧
    (∀ (k : Nat) (d d' : Derivation), T[k]? = some d → T[k + 1]? = some d' →
      ∃ r, d.proveNext r = .ok d') ∧
    (∀ (k : Nat) (d : Derivation), T[k]? = some d → d.stats.proved = k) ∧
    s.status = "sequent " ++ toString (s.index + 1) ++ "/" ++ toString s.sequents.length ++
      ", step " ++ toString s.derivation.stats.proved ++ ", " ++
      toString s.derivation.stats.goals ++ " goals left" ∧
    ∀ (k : Nat) (d : Derivation), T[k]? = some d → d.isComplete = true → k + 1 = T.length := by
  intro T
  obtain ⟨q, hq⟩ := hs.exists_tracks hopen
  have hT : T = s.history.timeline := by simp [T, History.timeline]
  rw [hT]
  have hlink : ∀ (k : Nat) (d d' : Derivation), s.history.timeline[k]? = some d →
      s.history.timeline[k + 1]? = some d' → d.LeadsTo d' := by
    intro k d d' hd hd'
    obtain ⟨_, rfl⟩ := List.getElem?_eq_some_iff.mp hd
    obtain ⟨hlt, rfl⟩ := List.getElem?_eq_some_iff.mp hd'
    exact hq.linked.chain.getElem k hlt
  refine ⟨⟨q, hq.current, ?_, hq.root⟩, hlink, fun _ _ => hq.proved_eq, ?_, ?_⟩
  · rw [← List.head?_eq_getElem?, hq.linked.head, hq.root]
  · have hsteps : s.derivation.stats.proved = s.history.steps :=
      hq.proved_eq s.history.timeline_steps
    simp only [status, hopen, Bool.false_eq_true, if_false, hsteps]
  · intro k d hd hcomplete
    have hlt : k < s.history.timeline.length := (List.getElem?_eq_some_iff.mp hd).1
    by_contra hnotLast
    have hnext : k + 1 < s.history.timeline.length := by omega
    have hleads := hlink k d _ hd (List.getElem?_eq_getElem hnext)
    rw [hleads.isComplete_eq_false] at hcomplete
    contradiction

/-- After two steps, of which the second is undone, the present has one proved
node and the undone state, which is complete, has two. -/
theorem timeline_counts_undone :
    let A : Formula := .var ⟨⟨'A', rfl⟩, []⟩
    let q : Sequent := ⟨[], .impl A A⟩
    let first : Derivation := .node q .implicationIntro [.goal ⟨[A], A⟩]
    let last : Derivation := .node q .implicationIntro [.node ⟨[A], A⟩ .hypothesis []]
    let s : Session := run ⟨[q], 0, .start (.goal q), { display := { style := .default } }⟩
      [⟨false, Text.ofString "ii"⟩, ⟨false, Text.ofString "h"⟩, ⟨true, Text.ofString ":b"⟩]
    s.isDone = false ∧
      s.history.past.reverse ++ [s.history.present] ++ s.history.future = [.goal q, first, last] ∧
      s.status = "sequent 1/1, step 1, 1 goals left" ∧ first.stats.proved = 1 ∧
      last.isComplete = true ∧ last.stats.proved = 2 := by
  intro A q first last s
  have hT : s.history.past.reverse ++ [s.history.present] ++ s.history.future =
      [.goal q, first, last] := rfl
  have hreachable : s.Reachable := ⟨[q], _, _, _, _, rfl, rfl⟩
  have hopen : s.isDone = false := by decide +kernel
  obtain ⟨-, -, hproved, hstatus, -⟩ := hreachable.timeline_counts hopen
  rw [hT] at hproved
  exact ⟨hopen, hT, hstatus.trans (by decide +kernel), hproved 1 first rfl, rfl,
    hproved 2 last rfl⟩

end Session

end Sequitur
