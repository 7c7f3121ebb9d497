import Sequitur.Proofs.Picture.Placement
import Sequitur.Proofs.Text.Number
import Sequitur.Session.Outcome

/-!
# Sequitur.Proofs.Session.Message

What a session says takes one line.  Messages are put together from fixed words,
numbers, names, formulas and quoted texts, and none of these has a newline in
it: a quoted text shows one as an escape.  There is a single exception, and it is
about a wording only.  A character that a formula cannot contain is shown as it
is, so that the message would go on in a second line, with a quotation mark in
it, if this character were a newline (`IsMessage`).
-/

namespace Sequitur

/-! ## Lines -/

/-- Whether a string stays on one line. -/
def IsLine (s : String) : Prop := '\n' ∉ s.toList

instance (s : String) : Decidable (IsLine s) := inferInstanceAs (Decidable (¬ _))

@[simp] theorem isLine_append {s t : String} : IsLine (s ++ t) ↔ IsLine s ∧ IsLine t := by
  simp [IsLine]

theorem IsLine.append {s t : String} (hs : IsLine s) (ht : IsLine t) : IsLine (s ++ t) :=
  isLine_append.mpr ⟨hs, ht⟩

theorem isLine_of_forall {s : String} {P : Char → Prop} (h : ∀ c ∈ s.toList, P c)
    (hnewline : ¬ P '\n') : IsLine s := fun hmem => hnewline (h '\n' hmem)

@[simp] theorem isLine_nat (n : Nat) : IsLine n.repr := by
  refine isLine_of_forall (P := fun c => c.isDigit = true) (fun c hc => ?_) (by decide)
  rw [Nat.toList_repr] at hc
  exact Nat.isDigit_of_mem_toDigits (by decide) (by decide) hc

@[simp] theorem isLine_int (i : Int) : IsLine i.repr :=
  isLine_of_forall (fun _ => Number.isNumeral_of_mem) (by rw [Number.IsNumeral]; decide)

theorem isLine_joined {sep : String} {ss : List String} (hsep : IsLine sep)
    (h : ∀ s ∈ ss, IsLine s) : IsLine (Request.joined sep ss) := by
  fun_induction Request.joined sep ss with
  | case1 => decide
  | case2 s => exact h s List.mem_cons_self
  | case3 s ss _ ih =>
      obtain ⟨hs, hss⟩ := List.forall_mem_cons.mp h
      simp only [isLine_append]
      exact ⟨⟨hs, hsep⟩, ih hss⟩

/-! ## Quoted texts -/

theorem newline_ne_hexDigit (n : Nat) : '\n' ≠ hexDigit n := by
  have hall : ∀ m < 16, '\n' ≠ Nat.digitChar m := by decide
  exact hall (n % 16) (Nat.mod_lt n (by decide))

theorem newline_not_mem_hexDigits (width n : Nat) : '\n' ∉ hexDigits width n := by
  induction width generalizing n with
  | zero => exact List.not_mem_nil
  | succ width ih => simp [hexDigits, ih, newline_ne_hexDigit]

theorem newline_ne_letter {c l : Char} (h : Quoted.letter? c = some l) : '\n' ≠ l := by
  rw [Quoted.letter?] at h
  split at h
  all_goals cases h
  all_goals decide

theorem newline_not_mem_quotedChar (c : Char) : '\n' ∉ Quoted.char c := by
  rw [Quoted.char]
  split
  · next hescaped =>
      have hc : '\n' ≠ c := by
        rintro rfl
        revert hescaped
        decide
      simp [hc]
  · split
    · next hprintable =>
        rw [List.mem_singleton]
        rintro rfl
        revert hprintable
        decide
    · split
      · next l hl => simp [newline_ne_letter hl]
      · dsimp only
        split
        · simp [newline_not_mem_hexDigits]
        · split <;> simp [newline_not_mem_hexDigits]

/-- A newline is quoted as an escape. -/
@[simp] theorem isLine_quoted (t : Text) : IsLine t.quoted := by
  have hglyph : ∀ g : Glyph, '\n' ∉ Quoted.glyph g := by
    intro g
    cases g with
    | char c => exact newline_not_mem_quotedChar c
    | stray b => simp [Quoted.glyph, newline_not_mem_hexDigits]
  rw [IsLine, Text.quoted, String.toList_ofList]
  simp [hglyph]

/-! ## Formulas and sequents -/

theorem isLine_name (x : Name) : IsLine x.toString :=
  isLine_of_forall (fun _ => x.isNameChar_of_mem) (by decide)

theorem isLine_sequent (s : Sequent) : IsLine s.toString := by
  intro hmem
  have hspace := (s.solid_print .default).eq_space_of_isBlankChar hmem (by decide)
  exact absurd hspace (by decide)

/-! ## Errors -/

/-- A message: a line, or a line that shows a newline at its end and a quotation
mark behind it. -/
def IsMessage (s : String) : Prop := IsLine s ∨ ∃ l, IsLine l ∧ s = l ++ "\n'"

theorem IsLine.isMessage {s : String} (h : IsLine s) : IsMessage s := .inl h

theorem IsMessage.prepend {s t : String} (hs : IsLine s) (ht : IsMessage t) :
    IsMessage (s ++ t) := by
  rcases ht with ht | ⟨l, hl, rfl⟩
  · exact .inl (hs.append ht)
  · exact .inr ⟨s ++ l, hs.append hl, by rw [String.append_assoc]⟩

theorem LexFault.isMessage_message (fault : LexFault) : IsMessage fault.message := by
  cases fault with
  | endInOperator | inOperator | unopened | unclosed => exact IsLine.isMessage (by decide)
  | unexpected g =>
      rw [message]
      split
      · exact IsLine.isMessage (by decide)
      · by_cases hnewline : g.shown = '\n'
        · refine .inr ⟨"unexpected character '", by decide, ?_⟩
          rw [hnewline]
          rfl
        · have hshown : IsLine g.shown.toString := by
            simpa [IsLine, Char.toString, eq_comm] using hnewline
          exact IsLine.isMessage (.append (.append (by decide) hshown) (by decide))

theorem FormulaError.isMessage_message (e : FormulaError) : IsMessage e.message := by
  cases e with
  | lexical e =>
      rw [message, LexError.message]
      refine .prepend ?_ e.fault.isMessage_message
      simp only [isLine_append, Nat.toString_eq_repr, isLine_nat]
      decide
  | grammar fault => cases fault <;> exact IsLine.isMessage (by decide)

namespace RequestFault

theorem isLine_commandName (c : Command) : IsLine c.name := by
  cases c <;> decide

theorem isLine_countMessage (c : Command) (want : Nat) {what : String} (hwhat : IsLine what)
    (found : Nat) : IsLine (countMessage c want what found) := by
  have hplural : IsLine (if want = 1 then "" else "s") := by
    split <;> decide
  simp only [countMessage, isLine_append, isLine_commandName, hwhat, hplural,
    Nat.toString_eq_repr, isLine_nat]
  decide

theorem isLine_summary (fault : RequestFault) : IsLine fault.summary := by
  cases fault with
  | formulaCount c found => exact isLine_countMessage c _ (by decide) found
  | positionCount c found => exact isLine_countMessage c _ (by decide) found
  | unknownNumber n => exact .append (by decide) (isLine_int n)
  | empty => decide
  | unknownName t => exact .append (by decide) (isLine_quoted t)
  | formula i _ => exact .append (by decide) (isLine_nat i)
  | position t _ => exact .append (by decide) (isLine_quoted t)
  | noPosition c => exact .append (isLine_commandName c) (by decide)
  | unexpectedArgument c => exact .append (isLine_commandName c) (by decide)

theorem isMessage_message (fault : RequestFault) : IsMessage fault.message := by
  have hsummary : IsLine fault.summary := fault.isLine_summary
  cases fault with
  | formula i e =>
      rw [message]
      exact .prepend (hsummary.append (by decide)) e.isMessage_message
  | position t fault =>
      have hfault : IsLine fault.message := by cases fault <;> decide
      rw [message]
      unfold Number.faultMessage
      refine IsLine.isMessage ?_
      simp only [isLine_append, isLine_quoted, hsummary, hfault]
      decide
  | unknownNumber _ | empty | unknownName _ | formulaCount _ _ | positionCount _ _
  | noPosition _ | unexpectedArgument _ => exact hsummary.isMessage

end RequestFault

theorem isLine_path (path : Path) : IsLine path.toString := by
  have hpath : IsLine (Request.joined " " (path.map toString)) :=
    isLine_joined (by decide) (by simp)
  simp only [Path.toString, isLine_append, hpath]
  decide

theorem NotApplicable.isLine_message (e : NotApplicable) : IsLine e.message := by
  have hreason : IsLine e.reason.word := by cases e.reason <;> decide
  have happly : IsLine ("cannot apply " ++ quoted e.request.toString) :=
    IsLine.append (by decide) (isLine_quoted _)
  exact (happly.append (by decide)).append hreason

theorem DerivationError.isMessage_message (e : DerivationError) : IsMessage e.message := by
  cases e with
  | complete => exact IsLine.isMessage (by decide)
  | noNode path => exact IsLine.isMessage (.append (by decide) (isLine_path path))
  | alreadyProved path k =>
      have hrule : IsLine k.name := by cases k <;> decide
      have hnode : IsLine ("node at path " ++ path.toString) :=
        IsLine.append (by decide) (isLine_path path)
      exact IsLine.isMessage (.append (.append hnode (by decide)) hrule)
  | invalid e =>
      change IsMessage e.fault.message
      exact e.fault.isMessage_message
  | refused e => exact e.isLine_message.isMessage

theorem Interruption.isLine_message (why : Interruption) : IsLine why.message := by
  cases why <;> decide

/-- **Errors are reported by messages.** -/
theorem SessionError.isMessage_message (e : SessionError) : IsMessage e.message := by
  cases e with
  | request e =>
      change IsMessage e.fault.message
      exact e.fault.isMessage_message
  | derivation e => exact e.isMessage_message
  | emptyInput | noHistory => exact IsLine.isMessage (by decide)
  | unknownCommand line =>
      exact IsLine.isMessage (.append (by decide) (isLine_quoted line))
  | checkStopped why => exact IsLine.isMessage (.append (by decide) why.isLine_message)
  | neededStopped why => exact IsLine.isMessage (.append (by decide) why.isLine_message)
  | neededInvalid goal =>
      have hgoal : IsLine goal.notValidMessage :=
        IsLine.append (.append (by decide) (isLine_sequent goal)) (by decide)
      exact IsLine.isMessage (.append (by decide) hgoal)

/-! ## Outcomes -/

theorem isLine_showValues (m : Countermodel) : IsLine (Verdict.showValues m) := by
  induction m with
  | nil => decide
  | cons p m ih =>
      obtain ⟨x, value⟩ := p
      have hvalue : IsLine (if value then "true" else "false") := by
        cases value <;> decide
      simp only [Verdict.showValues, isLine_append, isLine_name, hvalue, ih]
      decide

theorem Verdict.isLine_message (v : Verdict) : IsLine v.message := by
  cases v with
  | valid => decide
  | invalid m =>
      cases m with
      | nil => decide
      | cons p m => exact .append (by decide) (isLine_showValues (p :: m))

/-- **Outcomes other than the usage are told in a line.** -/
theorem Outcome.isLine_message {o : Outcome} (h : o ≠ .help) : IsLine o.message := by
  have hswitched : ∀ (name : String) (on : Bool), IsLine name → IsLine (switched name on) := by
    intro name on hname
    cases on <;> exact .append hname (by decide)
  cases o with
  | applied | solved | moved | finished | quit => decide
  | help => contradiction
  | next skipped => cases skipped <;> decide
  | negation on => exact hswitched _ on (by decide)
  | unicode on => exact hswitched _ on (by decide)
  | verdict v =>
      cases v with
      | valid => decide
      | invalid m => exact .append (Verdict.isLine_message _) (by decide)
  | unneeded is =>
      cases is with
      | nil => decide
      | cons i is =>
          have hpositions : IsLine
              (Request.joined " " (((i :: is).map Int.ofNat).map toString)) :=
            isLine_joined (by decide) (by simp)
          have hhint : (unneeded (i :: is)).message = "hypotheses not needed: " ++
              ("aff" ++ " " ++ Request.joined " " (((i :: is).map Int.ofNat).map toString)) := rfl
          rw [hhint]
          simp only [isLine_append, hpositions]
          decide

end Sequitur
