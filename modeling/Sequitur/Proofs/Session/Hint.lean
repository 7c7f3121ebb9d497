import Sequitur.Proofs.Rule.Wording
import Sequitur.Proofs.Session.Reaction
import Sequitur.Proofs.Validity.Needed

/-!
# Sequitur.Proofs.Session.Hint

The answer to `:w`.  It names the hypotheses that are not needed, in the words
of a request that removes them.  The request is read from those words, it fits
the goal, and it leaves a goal that is still valid and of which the session says
that every hypothesis is needed (`needed_answer`).  All of this rests on the
flags that the search for needed hypotheses ends with: the answer lists the
positions of the flags that are down, and the request keeps the hypotheses whose
flags are up (`apply_weaken_positionsDropped`).
-/

namespace Sequitur

/-! ## Positions that are not kept -/

/-- Going through positions and an increasing list together finds the positions that
are not in the list. -/
theorem skipping_eq_filter {i count : Nat} {is : List Nat} (hincreasing : is.Pairwise (· < ·))
    (hfrom : ∀ j ∈ is, i ≤ j) :
    skipping i count is = (List.range' i count).filter fun j => !is.contains j := by
  induction count generalizing i is with
  | zero => rfl
  | succ count ih =>
      rw [List.range'_succ]
      cases is with
      | nil => rw [skipping, ih .nil (List.forall_mem_nil _)]; rfl
      | cons next is =>
          obtain ⟨hnext, hlater⟩ := List.pairwise_cons.mp hincreasing
          rw [skipping]
          split
          · next heq =>
              -- the position is the next one of the list, and it does not come again
              subst heq
              have hrest : ∀ j ∈ List.range' (next + 1) count,
                  (!(next :: is).contains j) = !is.contains j := by
                intro j hj
                have hne : j ≠ next := by
                  have := (List.mem_range'_1.mp hj).1
                  omega
                simp [hne]
              rw [ih hlater hnext, List.filter_cons_of_neg (by simp), List.filter_congr hrest]
          · next hne =>
              have hafter : ∀ j ∈ next :: is, i < j := by
                have hlt : i < next := Nat.lt_of_le_of_ne (hfrom next List.mem_cons_self) (Ne.symm hne)
                exact List.forall_mem_cons.mpr
                  ⟨hlt, fun j hj => Nat.lt_trans hlt (hnext j hj)⟩
              have hother : i ∉ next :: is := fun hmem => Nat.lt_irrefl i (hafter i hmem)
              rw [ih hincreasing hafter, List.filter_cons_of_pos (by simpa using hother)]

/-- **The other positions** are those that are not in the list. -/
theorem mem_otherPositions {n i : Nat} {is : List Nat} (hincreasing : is.Pairwise (· < ·)) :
    i ∈ otherPositions n is ↔ i < n ∧ i ∉ is := by
  rw [otherPositions, skipping_eq_filter hincreasing fun j _ => Nat.zero_le j]
  simp [← List.range_eq_range']

namespace Sequent

/-- The positions of the flags that are down, as the answer lists them. -/
def positionsDropped (kept : List Bool) : List Nat :=
  otherPositions kept.length (positionsKept 0 kept)

variable {kept : List Bool}

theorem mem_positionsDropped {i : Nat} :
    i ∈ positionsDropped kept ↔ kept[i]? = some false := by
  rw [positionsDropped, mem_otherPositions (pairwise_positionsKept 0 kept), mem_positionsKept_zero]
  by_cases hlt : i < kept.length
  · simp [hlt]
  · simp [hlt]

theorem lt_of_mem_positionsDropped {i : Nat} (h : i ∈ positionsDropped kept) :
    i < kept.length := by
  obtain ⟨hlt, -⟩ := List.getElem?_eq_some_iff.mp (mem_positionsDropped.mp h)
  exact hlt

theorem positionsDropped_eq_nil : positionsDropped kept = [] ↔ false ∉ kept := by
  rw [List.eq_nil_iff_forall_not_mem, List.mem_iff_getElem?, not_exists]
  exact forall_congr' fun i => not_congr mem_positionsDropped

/-- Removing the elements at the positions that are not kept leaves those that
are. -/
theorem without_eq_chosen {is : List Int} {i : Nat} {hyps : List Formula}
    (hlength : kept.length = hyps.length)
    (h : ∀ j, ((i + j : Nat) : Int) ∈ is ↔ kept[j]? = some false) :
    without is i hyps = chosen kept hyps := by
  induction hyps generalizing kept i with
  | nil => rfl
  | cons p hyps ih =>
      match kept with
      | [] => contradiction
      | flag :: kept =>
          have hrest : without is (i + 1) hyps = chosen kept hyps := by
            refine ih (Nat.succ.inj hlength) fun j => ?_
            rw [Nat.add_assoc, Nat.add_comm 1 j]
            exact h (j + 1)
          have hfirst : (i : Int) ∈ is ↔ flag = false := by simpa using h 0
          rw [without, hrest]
          cases flag with
          | false => simp [hfirst]
          | true => simp [hfirst]

/-- **The hint fits**: weakening at the positions that are not kept leads to the
sequent with the hypotheses that are. -/
theorem apply_weaken_positionsDropped {s : Sequent} (hlength : kept.length = s.hyps.length)
    (hne : positionsDropped kept ≠ []) :
    s.apply (.weaken ((positionsDropped kept).map Int.ofNat)) =
      .ok ⟨.weaken, [s.keeping kept]⟩ := by
  have hwithout : without ((positionsDropped kept).map Int.ofNat) 0 s.hyps =
      chosen kept s.hyps := by
    refine without_eq_chosen hlength fun j => ?_
    rw [Nat.zero_add, ← mem_positionsDropped]
    exact List.mem_map_of_injective fun _ _ => Int.ofNat.inj
  have hall : ((positionsDropped kept).map Int.ofNat).all
      (fun i => (s.hyp? i).isSome) = true := by
    rw [List.all_map, List.all_eq_true]
    intro i hi
    have hlt : i < s.hyps.length := hlength ▸ lt_of_mem_positionsDropped hi
    simp [hyp?, nth?, hlt]
  have hempty : ((positionsDropped kept).map Int.ofNat).isEmpty = false := by simpa using hne
  rw [apply, step, weaken, hempty, hall, hwithout]
  rfl

/-- **The hint is read** as the weakening it words, if positions fit a signed
word. -/
theorem parse_weaken_positionsDropped (hlimit : kept.length ≤ Number.signedLimit)
    (hne : positionsDropped kept ≠ []) :
    let r := Request.weaken ((positionsDropped kept).map Int.ofNat)
    Request.parse (Text.ofString r.toString) = .ok r := by
  refine Request.parse_toString_weaken (by simpa using hne) fun i hi => ?_
  obtain ⟨n, hn, rfl⟩ := List.mem_map.mp hi
  have hlt : n < kept.length := lt_of_mem_positionsDropped hn
  constructor
  · exact Int.le_trans (by decide) (Int.natCast_nonneg n)
  · exact Int.ofNat_lt.mpr (by omega)

end Sequent

/-! ## The wording of the answer -/

namespace Outcome

variable {is : List Nat}

theorem message_unneeded_eq_all :
    (unneeded is).message = "every hypothesis is needed" ↔ is = [] := by
  constructor
  · intro h
    cases is with
    | nil => rfl
    | cons i is =>
        have hlist := congrArg String.toList h
        simp [message] at hlist
  · rintro rfl
    rfl

theorem message_unneeded_eq_hint {hint : String} :
    (unneeded is).message = "hypotheses not needed: " ++ hint ↔
      is ≠ [] ∧ (Request.weaken (is.map Int.ofNat)).toString = hint := by
  cases is with
  | nil =>
      refine iff_of_false ?_ (fun h => h.1 rfl)
      intro h
      have hlist := congrArg String.toList h
      simp [message] at hlist
  | cons i is =>
      rw [message]
      · simp [String.append_right_inj]
      · nofun

end Outcome

/-! ## Asking a session -/

namespace Session

variable {s : Session} {message : String}

/-- Whether a session answers queries: there are sequents left, and the time
limit lets a query end. -/
structure Ready (s : Session) : Prop where
  isDone_eq : s.isDone = false
  limit_eq : Interruption.ofLimit? s.options.limit = none

/-- Whether a session answers `:w` with a message. -/
def SaysNeeded (s : Session) (message : String) : Prop :=
  ∃ o, (s.exec false (Text.ofString ":w")).result = .ok o ∧ o.message = message

/-- What a session has to say that answers. -/
theorem Ready.saysNeeded_iff (h : s.Ready) :
    s.SaysNeeded message ↔ ∃ is, s.goal.needed? s.options.source s.options.solver = some is ∧
      (Outcome.unneeded (otherPositions s.goal.hyps.length is)).message = message := by
  have hexec : (s.exec false (Text.ofString ":w")).result = s.answer false .needed := by
    rw [exec_meta (m := .needed) h.isDone_eq rfl]
    rfl
  have hstop : Interruption.of? false s.options.limit = none := h.limit_eq
  rw [SaysNeeded, hexec, answer, hstop, Query.answer]
  cases s.goal.needed? s.options.source s.options.solver with
  | none => simp
  | some is => simp

/-- A session that says anything about hypotheses is one that answers. -/
theorem SaysNeeded.ready (h : s.SaysNeeded message) (hmessage : message ≠ "no more sequents") :
    s.Ready := by
  obtain ⟨o, hresult, rfl⟩ := h
  cases hdone : s.isDone with
  | true =>
      have hquit : MetaCommand.ofText? (Text.trim (Text.ofString ":w")) ≠ some .quit := by decide
      rw [exec_of_isDone hdone, if_neg hquit] at hresult
      obtain rfl : Outcome.finished = o := Except.ok.inj hresult
      contradiction
  | false =>
      refine ⟨hdone, ?_⟩
      rw [exec_meta (m := .needed) hdone rfl] at hresult
      cases hlimit : Interruption.ofLimit? s.options.limit with
      | none => rfl
      | some why =>
          have hstop : Interruption.of? false s.options.limit = some why := hlimit
          rw [execMeta, answer, hstop] at hresult
          contradiction

/-- What a session says of a valid goal is told by the flags that the search
ends with. -/
theorem Ready.exists_saysNeeded_iff (h : s.Ready) (hvalid : s.goal.IsClassicallyValid) :
    ∃ kept, s.goal.Settled kept s.goal.hyps.length ∧ ∀ message, s.SaysNeeded message ↔
      (Outcome.unneeded (Sequent.positionsDropped kept)).message = message := by
  obtain ⟨kept, hkept, hneeded⟩ :=
    Sequent.exists_settled hvalid s.options.solver s.options.source
  refine ⟨kept, hkept, fun message => ?_⟩
  rw [h.saysNeeded_iff, hneeded, Sequent.positionsDropped, hkept.length_eq]
  simp

theorem Ready.isClassicallyValid (h : s.Ready) (hsaid : s.SaysNeeded message) :
    s.goal.IsClassicallyValid := by
  obtain ⟨is, hneeded, -⟩ := h.saysNeeded_iff.mp hsaid
  rw [Sequent.needed?] at hneeded
  split at hneeded
  next hvalid => exact Sequent.isValid_iff.mp hvalid
  next => contradiction

/-- A session that answers says one of two things of a valid goal, and neither
of any other. -/
theorem Ready.isClassicallyValid_iff (h : s.Ready) :
    s.goal.IsClassicallyValid ↔ s.SaysNeeded "every hypothesis is needed" ∨
      ∃ hint, s.SaysNeeded ("hypotheses not needed: " ++ hint) := by
  constructor
  · intro hvalid
    obtain ⟨kept, -, hsaid⟩ := h.exists_saysNeeded_iff hvalid
    by_cases hnil : Sequent.positionsDropped kept = []
    · exact .inl ((hsaid _).mpr (Outcome.message_unneeded_eq_all.mpr hnil))
    · exact .inr ⟨_, (hsaid _).mpr (Outcome.message_unneeded_eq_hint.mpr ⟨hnil, rfl⟩)⟩
  · rintro (hall | ⟨hint, hhint⟩)
    · exact h.isClassicallyValid hall
    · exact h.isClassicallyValid hhint

/-- Of a valid goal without any hypothesis to spare the session says so. -/
theorem Ready.saysNeeded_of_isTight (h : s.Ready) (hvalid : s.goal.IsClassicallyValid)
    (htight : s.goal.IsTight) : s.SaysNeeded "every hypothesis is needed" := by
  obtain ⟨kept, hkept, hsaid⟩ := h.exists_saysNeeded_iff hvalid
  rw [hsaid, Outcome.message_unneeded_eq_all, Sequent.positionsDropped_eq_nil]
  exact hkept.not_mem_of_isTight htight

/-- The session says so of no other goal. -/
theorem SaysNeeded.isTight_goal (h : s.SaysNeeded "every hypothesis is needed") :
    s.goal.IsTight := by
  have hready : s.Ready := h.ready (by decide)
  obtain ⟨kept, hkept, hsaid⟩ := hready.exists_saysNeeded_iff (hready.isClassicallyValid h)
  rw [hsaid, Outcome.message_unneeded_eq_all, Sequent.positionsDropped_eq_nil] at h
  have htight : (s.goal.keeping kept).IsTight := hkept.isTight_keeping
  rwa [hkept.keeping_eq_self h] at htight

/-- A hint comes from the flags that the search ends with. -/
theorem SaysNeeded.exists_settled {hint : String}
    (h : s.SaysNeeded ("hypotheses not needed: " ++ hint)) :
    ∃ kept, s.goal.Settled kept s.goal.hyps.length ∧ Sequent.positionsDropped kept ≠ [] ∧
      (Request.weaken ((Sequent.positionsDropped kept).map Int.ofNat)).toString = hint := by
  have hready : s.Ready := by
    refine h.ready fun heq => ?_
    have hlist := congrArg String.toList heq
    simp at hlist
  obtain ⟨kept, hkept, hsaid⟩ := hready.exists_saysNeeded_iff (hready.isClassicallyValid h)
  exact ⟨kept, hkept, Outcome.message_unneeded_eq_hint.mp ((hsaid _).mp h)⟩

/-- **The weakening hint can be followed, is safe and is final.**  A session that
answers `:w` says of the goals that are valid, and of no others, either that
every hypothesis is needed or which are not.  A hint is the wording of a
weakening, and is read as such as long as positions fit a signed word.  The
weakening fits the goal, and its premise is a valid goal, of which every session
that answers says that every hypothesis is needed, whatever its solver and wherever
its candidates come from.  Where this is said, the goal is not valid without any one of its
hypotheses. -/
theorem needed_answer (s : Session) :
    (s.Ready → (s.goal.IsClassicallyValid ↔ s.SaysNeeded "every hypothesis is needed" ∨
      ∃ hint, s.SaysNeeded ("hypotheses not needed: " ++ hint))) ∧
    (∀ hint, s.SaysNeeded ("hypotheses not needed: " ++ hint) →
      ∃ is premise, hint = (Request.weaken is).toString ∧
        (s.goal.hyps.length ≤ Number.signedLimit →
          Request.parse (Text.ofString hint) = .ok (.weaken is)) ∧
        s.goal.apply (.weaken is) = .ok ⟨.weaken, [premise]⟩ ∧ premise.IsClassicallyValid ∧
        ∀ after : Session, after.Ready → after.goal = premise →
          after.SaysNeeded "every hypothesis is needed") ∧
    (s.SaysNeeded "every hypothesis is needed" →
      ∀ i < s.goal.hyps.length,
        ¬ Sequent.IsClassicallyValid ⟨s.goal.hyps.eraseIdx i, s.goal.concl⟩) := by
  refine ⟨Ready.isClassicallyValid_iff, ?_, SaysNeeded.isTight_goal⟩
  intro hint hhint
  obtain ⟨kept, hkept, hne, rfl⟩ := hhint.exists_settled
  refine ⟨_, s.goal.keeping kept, rfl, ?_,
    Sequent.apply_weaken_positionsDropped hkept.length_eq hne, hkept.valid, ?_⟩
  · intro hlimit
    exact Sequent.parse_weaken_positionsDropped (hkept.length_eq ▸ hlimit) hne
  · intro after hafter hgoal
    have hvalid : after.goal.IsClassicallyValid := hgoal ▸ hkept.valid
    have htight : after.goal.IsTight := hgoal ▸ hkept.isTight_keeping
    exact hafter.saysNeeded_of_isTight hvalid htight

/-- A goal with its conclusion among the hypotheses twice, and candidates that do
not suffice: the last hypothesis alone is needed. -/
theorem needed_answer_repeated :
    let A : Formula := .var ⟨⟨'A', rfl⟩, []⟩
    let B : Formula := .var ⟨⟨'B', rfl⟩, []⟩
    let q : Sequent := ⟨[A, B, A], A⟩
    let options : SessionOptions :=
      { display := { style := .default }, source := fun _ => some [1] }
    let s : Session := ⟨[q], 0, .start (.goal q), options⟩
    let after : Session := ⟨[⟨[A], A⟩], 0, .start (.goal ⟨[A], A⟩), options⟩
    s.SaysNeeded ("hypotheses not needed: " ++ "aff 0 1") ∧
      Request.parse (Text.ofString "aff 0 1") = .ok (.weaken [0, 1]) ∧
      q.apply (.weaken [0, 1]) = .ok ⟨.weaken, [⟨[A], A⟩]⟩ ∧
      after.SaysNeeded "every hypothesis is needed" ∧
      ¬ Sequent.IsClassicallyValid ⟨[], A⟩ := by
  intro A B q options s after
  have hsaid : s.SaysNeeded ("hypotheses not needed: " ++ "aff 0 1") :=
    ⟨.unneeded [0, 1], by decide +kernel, by decide⟩
  obtain ⟨is, premise, -, hparse, happly, -, hafter⟩ := (needed_answer s).2.1 "aff 0 1" hsaid
  have hread : Request.parse (Text.ofString "aff 0 1") = .ok (.weaken is) := hparse (by decide)
  have his : Request.parse (Text.ofString "aff 0 1") = .ok (.weaken [0, 1]) := by decide +kernel
  obtain rfl : is = [0, 1] := Request.weaken.inj (Except.ok.inj (hread.symm.trans his))
  obtain rfl : premise = ⟨[A], A⟩ := by
    have hstep : q.apply (.weaken [0, 1]) = .ok ⟨.weaken, [⟨[A], A⟩]⟩ := by decide
    have hsteps := Except.ok.inj (happly.symm.trans hstep)
    simpa using hsteps
  have hall : after.SaysNeeded "every hypothesis is needed" :=
    hafter after ⟨by decide, by decide⟩ rfl
  exact ⟨hsaid, his, happly, hall, (needed_answer after).2.2 hall 0 (by decide)⟩

end Session

end Sequitur
