import Sequitur.Proofs.Derivation.Script
import Sequitur.Session.Basic

/-!
# Sequitur.Proofs.Session.Reachable

What a user can make of a session.  An input is a line, executed with or
without canceled checks; a run is a list of inputs, one after the other.  A
session is reachable if a run leads to it from the start.

`Change` lists what executing a line can do, and `change_exec` is the only
place where the execution of a line is opened.  What is to hold of all
reachable sessions is proved of the start and of the changes
(`Reachable.induction`), first of all that the history holds well-formed
derivations only (`Reachable.all_wellFormed`).
-/

namespace Sequitur

/-! ## Histories -/

namespace History

variable {α : Type} {P : α → Prop} {h h' : History α}

/-- All states of a history have a property. -/
structure All (P : α → Prop) (h : History α) : Prop where
  root : P h.root
  past : ∀ a ∈ h.past, P a
  present : P h.present
  future : ∀ a ∈ h.future, P a

theorem all_start {a : α} (ha : P a) : (start a).All P := ⟨ha, nofun, ha, nofun⟩

theorem All.push (hh : h.All P) {a : α} (ha : P a) : (h.push a).All P :=
  ⟨hh.root, List.forall_mem_cons.mpr ⟨hh.present, hh.past⟩, ha, nofun⟩

theorem All.undo (hh : h.All P) (hundo : h.undo? = some h') : h'.All P := by
  rw [undo?] at hundo
  split at hundo
  · contradiction
  · next a past hpast =>
      cases hundo
      have hall := hh.past
      rw [hpast, List.forall_mem_cons] at hall
      exact ⟨hh.root, hall.2, hall.1, List.forall_mem_cons.mpr ⟨hh.present, hh.future⟩⟩

theorem All.redo (hh : h.All P) (hredo : h.redo? = some h') : h'.All P := by
  rw [redo?] at hredo
  split at hredo
  · contradiction
  · next a future hfuture =>
      cases hredo
      have hall := hh.future
      rw [hfuture, List.forall_mem_cons] at hall
      exact ⟨hh.root, List.forall_mem_cons.mpr ⟨hh.present, hh.past⟩, hall.1, hall.2⟩

end History

namespace Session

/-! ## Changes -/

/-- What executing a line can do to a session. -/
inductive Change (s : Session) : Session → Prop where
  | none : Change s s
  | styled (st : Style) : Change s (s.setStyle st)
  /-- A request has been applied to the first goal. -/
  | proved {r : Request} {d : Derivation} (h : s.derivation.proveNext r = .ok d) :
      Change s { s with history := s.history.push d }
  | undone {h : History Derivation} (hundo : s.history.undo? = some h) :
      Change s { s with history := h }
  | redone {h : History Derivation} (hredo : s.history.redo? = some h) :
      Change s { s with history := h }
  | reset : Change s { s with history := s.history.reset }
  /-- The next sequent has come. -/
  | next {q : Sequent} (hopen : s.isDone = false) (h : s.sequents[s.index + 1]? = some q) :
      Change s { s with index := s.index + 1, history := .start (.goal q) }
  /-- There is no next sequent. -/
  | finished (hopen : s.isDone = false) (h : s.sequents[s.index + 1]? = Option.none) :
      Change s { s with index := s.index + 1 }

variable {s : Session}

theorem change_advance (hopen : s.isDone = false) (skipped : Bool) :
    s.Change (s.advance skipped).session := by
  rw [advance]
  split
  · next hnone => exact .finished hopen hnone
  · next q hq => exact .next hopen hq

theorem change_applyRequest (r : Request) : s.Change (s.applyRequest r).session := by
  rw [applyRequest]
  split
  · exact .none
  · next d hd =>
      dsimp only
      split
      · exact .proved hd
      · exact .proved hd

theorem change_execRequest (line : Text) : s.Change (s.execRequest line).session := by
  rw [execRequest]
  split
  · exact .none
  · next r _ => exact change_applyRequest r

theorem change_execMeta (hopen : s.isDone = false) (canceled : Bool) (m : MetaCommand) :
    s.Change (s.execMeta canceled m).session := by
  cases m with
  | back =>
      rw [execMeta]
      split
      · exact .none
      · next h hundo => exact .undone hundo
  | forward =>
      rw [execMeta]
      split
      · exact .none
      · next h hredo => exact .redone hredo
  | reset => exact .reset
  | skip => exact change_advance hopen true
  | negation => exact .styled _
  | unicode => exact .styled _
  | help | check | needed | quit => exact .none

/-- **Executing a line makes one of the changes.** -/
theorem change_exec (s : Session) (canceled : Bool) (line : Text) :
    s.Change (s.exec canceled line).session := by
  rw [exec, execTrimmed]
  split
  · exact .none
  · next hdone =>
      have hopen : s.isDone = false := Bool.eq_false_iff.mpr hdone
      split
      · split
        · exact .none
        · next m _ => exact change_execMeta hopen canceled m
      · split
        · exact change_advance hopen false
        · split
          · exact .none
          · exact change_execRequest line.trim

/-! ## Runs -/

/-- A line to be executed, with or without canceled checks. -/
structure Input where
  canceled : Bool
  line : Text

/-- The session after an input. -/
def after (s : Session) (i : Input) : Session := (s.exec i.canceled i.line).session

/-- The session after a list of inputs. -/
def run (s : Session) (is : List Input) : Session := is.foldl after s

/-- A run leads to the session from the start. -/
def Reachable (s : Session) : Prop :=
  ∃ sequents options s₀ records is, start? sequents options = some (s₀, records) ∧ s₀.run is = s

/-- What holds at the start and is kept by every change holds of every
reachable session. -/
theorem Reachable.induction {P : Session → Prop} (hs : s.Reachable)
    (hstart : ∀ q sequents options, P ⟨q :: sequents, 0, .start (.goal q), options⟩)
    (hchange : ∀ s s', P s → s.Change s' → P s') : P s := by
  obtain ⟨sequents, options, s₀, records, is, hs₀, rfl⟩ := hs
  have hfirst : P s₀ := by
    cases sequents with
    | nil => contradiction
    | cons q sequents =>
        cases hs₀
        exact hstart q sequents options
  clear hs₀
  induction is generalizing s₀ with
  | nil => exact hfirst
  | cons i is ih => exact ih _ (hchange _ _ hfirst (change_exec s₀ i.canceled i.line))

/-- The history of a reachable session holds well-formed derivations only. -/
theorem Reachable.all_wellFormed (hs : s.Reachable) : s.history.All Derivation.WellFormed := by
  apply hs.induction
  · intro q sequents options
    exact History.all_start (.goal q)
  · intro s s' hall hchange
    cases hchange with
    | none | styled _ => exact hall
    | proved h =>
        obtain ⟨path, q, step, -, hat, hstep, rfl⟩ := Derivation.proveNext_eq_ok h
        exact hall.push (hall.present.replace hat rfl (Derivation.wellFormed_ofStep hstep))
    | undone hundo => exact hall.undo hundo
    | redone hredo => exact hall.redo hredo
    | reset => exact History.all_start hall.root
    | next _ _ => exact History.all_start (.goal _)
    | finished _ _ => exact hall

end Session

end Sequitur
