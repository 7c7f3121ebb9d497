import Sequitur.Proofs.Derivation.Reachable
import Sequitur.Proofs.Rule.Wording
import Sequitur.Proofs.Sequent.RoundTrip

/-!
# Sequitur.Proofs.Rule.RoundTrip

Requests are read back as they are written, and whatever is read can be
written and read again.

A request can be written if its positions fit a signed word and there is one
at least where it is a weakening (`IsWritable`).  Each kind of argument is
read back by a lemma of its own: none at all (`parse_name`), positions
(`parse_toString_elim`, `parse_toString_weaken`), and formulas, which have no
comma in them, so that the commas between them are where the text is cut
(`parse_oneFormula`, `parse_twoFormulas`).  The other way round, the
arguments of a command never lead to anything that cannot be written
(`isWritable_of_parseArgs`).
-/

namespace Sequitur

/-! ## Calls that are requests -/

theorem Command.number_of_ofNumber? {n : Int} {c : Command} (h : ofNumber? n = some c) :
    (c.number : Int) = n := by
  obtain ⟨m, rfl, hm⟩ := nth?_eq_some_iff.mp h
  obtain ⟨hlt, rfl⟩ := List.getElem?_eq_some_iff.mp hm
  have hnodup : all.Nodup := by decide
  rw [number, hnodup.idxOf_getElem m hlt]

namespace Call

/-- The request that a command makes has that command and those arguments. -/
theorem of_request?_eq_some {c : Command} {ps : List Formula} {is : List Int} {r : Request}
    (h : request? c ps is = some r) : r.command = c ∧ r.formulas = ps ∧ r.positions = is := by
  unfold request? at h
  split at h <;> cases h <;> exact ⟨rfl, rfl, rfl⟩

/-- A call that is a request says nothing else than the request. -/
theorem call_of_check {call : Call} {r : Request} (h : call.check = .ok r) : r.call = call := by
  rw [check] at h
  split at h
  · contradiction
  · next c hc =>
      split at h
      · next r' hr =>
          obtain rfl := Except.ok.inj h
          obtain ⟨hcommand, hformulas, hpositions⟩ := of_request?_eq_some hr
          have hnumber := Command.number_of_ofNumber? hc
          rw [Request.call, hcommand, hformulas, hpositions, hnumber]
      · contradiction

end Call

/-- A request, given as a call, is never refused for its form. -/
theorem Sequent.applyCall_call_ne_request (s : Sequent) (r : Request) (e : RequestError) :
    s.applyCall r.call ≠ .error (.request e) := by
  rw [applyCall, Request.check_call]
  cases happly : s.apply r with
  | error e' => simp [happly]
  | ok step => simp [happly]

namespace Request

/-! ## What is written -/

/-- A request that can be written: a weakening has a position, and all
positions fit a signed word. -/
structure IsWritable (r : Request) : Prop where
  positions_ne_nil : r.command = .weaken → r.positions ≠ []
  isPosition : ∀ i ∈ r.positions, IsPosition i

/-- A request without positions can be written unless it is a weakening. -/
theorem isWritable_of_positions {r : Request} (hcommand : r.command ≠ .weaken)
    (hpositions : r.positions = []) : r.IsWritable where
  positions_ne_nil h := absurd h hcommand
  isPosition := by simp [hpositions]

/-! ## Reading what is written -/

/-- The name of a command by itself is read as a command without arguments. -/
theorem parse_name {c : Command} {r : Request} (h : parseArgs [] c = .ok r) :
    parse (Text.ofString c.name) = .ok r := by
  have hname : ∀ g ∈ Text.ofString c.name, g.isBlank = false := fun g => isBlank_of_mem_name
  rw [parse, (Text.bare_of_forall hname).trim_eq, parseTrimmed, Text.firstWord_word hname]
  have htrim : Text.trim [] = [] := rfl
  simp only [ofName?_name, htrim, h]

theorem parse_toString_elim {i : Int} (h : IsPosition i) :
    parse (Text.ofString (elim i).toString) = .ok (elim i) := by
  obtain ⟨hne, hword⟩ := isWord_toString i
  have hbare : (Text.ofString (ToString.toString i)).Bare :=
    Text.bare_of_forall fun g hg => isBlank_of_isSeparator (hword g hg)
  have hargs : parseArgs (Text.ofString (ToString.toString i)) .elim = .ok (elim i) := by
    rw [parseArgs, Text.fields_word hne hword, parseElim, parsePosition,
      Number.read_toString h.1 h.2]
    rfl
  have htext : (elim i).toString = Command.elim.name ++ " " ++ ToString.toString i := rfl
  rw [htext, Text.ofString_append, Text.ofString_append, List.append_assoc]
  exact parse_command hbare hne hargs

section

variable (a b : Formula)

/-- The text of a formula: no glyph of it is blank or a comma. -/
theorem bare_formula : (Text.ofString a.toString).Bare := by
  apply Text.bare_of_forall
  intro g hg
  obtain ⟨c, hc, rfl⟩ := List.mem_map.mp hg
  exact (isFormulaChar_iff.mp (a.isFormulaChar_of_mem .default hc)).1

theorem formula_ne_nil : Text.ofString a.toString ≠ [] := by
  rw [Text.ofString, ne_eq, List.map_eq_nil_iff]
  exact a.toList_print_ne_nil .default

theorem comma_not_mem_formula : .char ',' ∉ Text.ofString a.toString :=
  Sequent.comma_not_mem (Sequent.noComma_format .default a (.inl rfl))

theorem parseFormula_formula (i : Nat) :
    parseFormula i (Text.ofString a.toString) = .ok a := by
  have hread := Formula.parse_of_reads (a.reads_format .default)
  rw [parseFormula, Formula.toString, Formula.print, hread]

/-- The blank behind a comma does not matter to the formula that follows. -/
theorem parseFormula_blank_formula (i : Nat) :
    parseFormula i (.char ' ' :: Text.ofString a.toString) = .ok a := by
  have hread := Formula.parse_of_reads (a.reads_format .default).blank_cons
  have htext : Text.ofString (Span.plainText (blankSpan :: a.format .default)) =
      .char ' ' :: Text.ofString a.toString := by
    rw [Span.plainText, Text.ofString_append]
    rfl
  rw [htext] at hread
  rw [parseFormula, hread]

theorem formulas_one : parseArgs.formulas (Text.ofString a.toString) =
    [Text.ofString a.toString] := by
  have hne : (Text.ofString a.toString).isEmpty = false := by simpa using formula_ne_nil a
  rw [parseArgs.formulas, hne, if_neg Bool.false_ne_true,
    Text.splitOn_of_not_mem (comma_not_mem_formula a)]

/-- Two formulas, as they are written. -/
theorem ofString_joined_two : Text.ofString (joined ", " [a.toString, b.toString]) =
    Text.ofString a.toString ++ .char ',' :: .char ' ' :: Text.ofString b.toString := by
  have hjoined : joined ", " [a.toString, b.toString] = a.toString ++ ", " ++ b.toString := rfl
  rw [hjoined, Text.ofString_append, Text.ofString_append, List.append_assoc]
  rfl

theorem formulas_two : parseArgs.formulas (Text.ofString (joined ", " [a.toString, b.toString])) =
    [Text.ofString a.toString, .char ' ' :: Text.ofString b.toString] := by
  have hblank : .char ',' ∉ Glyph.char ' ' :: Text.ofString b.toString := by
    simp [comma_not_mem_formula b]
  rw [ofString_joined_two, parseArgs.formulas, if_neg (by simp),
    Text.splitOn_append (comma_not_mem_formula a), Text.splitOn_of_not_mem hblank]

/-- A command with a formula, behind its name. -/
theorem parse_oneFormula {c : Command} {r : Request}
    (h : parseArgs (Text.ofString a.toString) c = .ok r) :
    parse (Text.ofString (c.name ++ " " ++ a.toString)) = .ok r := by
  rw [Text.ofString_append, Text.ofString_append, List.append_assoc]
  exact parse_command (bare_formula a) (formula_ne_nil a) h

/-- A command with two formulas, behind its name. -/
theorem parse_twoFormulas {c : Command} {r : Request}
    (h : parseArgs (Text.ofString (joined ", " [a.toString, b.toString])) c = .ok r) :
    parse (Text.ofString (c.name ++ " " ++ joined ", " [a.toString, b.toString])) = .ok r := by
  rw [Text.ofString_append, Text.ofString_append, List.append_assoc]
  refine parse_command ?_ ?_ h
  · rw [ofString_joined_two]
    exact (bare_formula a).append (bare_formula b) (formula_ne_nil a) (formula_ne_nil b)
      [.char ',', .char ' ']
  · rw [ofString_joined_two]
    simp

end

/-- **A request is read back** from its wording. -/
theorem parse_toString {r : Request} (h : r.IsWritable) :
    parse (Text.ofString r.toString) = .ok r := by
  cases r with
  | hypothesis | intro | implIntro | implIntros | disjIntroLeft | disjIntroRight | conjIntro
  | exfalso => exact parse_name rfl
  | elim i => exact parse_toString_elim (h.isPosition i List.mem_cons_self)
  | modusPonens b =>
      apply parse_oneFormula (c := .modusPonens)
      rw [parseArgs, formulas_one, parseOne, parseFormula_formula]
      rfl
  | disjElim a b =>
      apply parse_twoFormulas (c := .disjElim)
      rw [parseArgs, formulas_two, parseTwo, parseFormula_formula, parseFormula_blank_formula]
      rfl
  | conjElim a b =>
      apply parse_twoFormulas (c := .conjElim)
      rw [parseArgs, formulas_two, parseTwo, parseFormula_formula, parseFormula_blank_formula]
      rfl
  | weaken is => exact parse_toString_weaken (h.positions_ne_nil rfl) h.isPosition

/-! ## Writing what is read -/

section

variable {r : Request} {args : Text}

theorem parseNone_eq_ok {r' : Request} (h : parseNone r' args = .ok r) : r = r' := by
  rw [parseNone] at h
  split at h
  · exact (Except.ok.inj h).symm
  · contradiction

theorem parseOne_eq_ok {c : Command} {make : Formula → Request} {parts : List Text}
    (h : parseOne c make parts = .ok r) : ∃ p, r = make p := by
  unfold parseOne at h
  split at h
  · obtain ⟨p, -, hp⟩ := exists_of_bind_eq_ok h
    exact ⟨p, (Except.ok.inj hp).symm⟩
  · contradiction

theorem parseTwo_eq_ok {c : Command} {make : Formula → Formula → Request} {parts : List Text}
    (h : parseTwo c make parts = .ok r) : ∃ p q, r = make p q := by
  unfold parseTwo at h
  split at h
  · obtain ⟨p, -, hp⟩ := exists_of_bind_eq_ok h
    obtain ⟨q, -, hq⟩ := exists_of_bind_eq_ok hp
    exact ⟨p, q, (Except.ok.inj hq).symm⟩
  · contradiction

/-- A position that has been read fits a signed word. -/
theorem isPosition_of_parsePosition {t : Text} {i : Int} (h : parsePosition t = .ok i) :
    IsPosition i := by
  rw [parsePosition] at h
  split at h
  · contradiction
  · next j hj =>
      obtain rfl := Except.ok.inj h
      exact Number.bounds_of_read hj

theorem parseElim_eq_ok {parts : List Text} (h : parseElim parts = .ok r) :
    ∃ i, r = elim i ∧ IsPosition i := by
  unfold parseElim at h
  split at h
  · obtain ⟨i, hi, hr⟩ := exists_of_bind_eq_ok h
    exact ⟨i, (Except.ok.inj hr).symm, isPosition_of_parsePosition hi⟩
  · contradiction

/-- As many positions are read as there are texts, and all fit a signed word. -/
theorem mapM_parsePosition_eq_ok {parts : List Text} {is : List Int}
    (h : parts.mapM parsePosition = .ok is) :
    is.length = parts.length ∧ ∀ i ∈ is, IsPosition i := by
  induction parts generalizing is with
  | nil =>
      obtain rfl : [] = is := Except.ok.inj h
      simp
  | cons t parts ih =>
      rw [List.mapM_cons] at h
      obtain ⟨i, hi, hrest⟩ := exists_of_bind_eq_ok h
      obtain ⟨js, hjs, hcons⟩ := exists_of_bind_eq_ok hrest
      obtain rfl : i :: js = is := Except.ok.inj hcons
      obtain ⟨hlength, hall⟩ := ih hjs
      refine ⟨by simp [hlength], ?_⟩
      exact List.forall_mem_cons.mpr ⟨isPosition_of_parsePosition hi, hall⟩

theorem parseWeaken_eq_ok {parts : List Text} (h : parseWeaken parts = .ok r) :
    ∃ is, r = weaken is ∧ is ≠ [] ∧ ∀ i ∈ is, IsPosition i := by
  unfold parseWeaken at h
  split at h
  · contradiction
  · next hparts =>
      obtain ⟨is, his, hr⟩ := exists_of_bind_eq_ok h
      obtain ⟨hlength, hall⟩ := mapM_parsePosition_eq_ok his
      refine ⟨is, (Except.ok.inj hr).symm, ?_, hall⟩
      rintro rfl
      exact hparts (List.length_eq_zero_iff.mp hlength.symm)

/-- The arguments of a command never lead to a request that cannot be written. -/
theorem isWritable_of_parseArgs {c : Command} (h : parseArgs args c = .ok r) : r.IsWritable := by
  cases c with
  | hypothesis | intro | implIntro | implIntros | disjIntroLeft | disjIntroRight | conjIntro
  | exfalso =>
      obtain rfl := parseNone_eq_ok h
      exact isWritable_of_positions (by decide) rfl
  | modusPonens =>
      obtain ⟨b, rfl⟩ := parseOne_eq_ok h
      exact isWritable_of_positions nofun rfl
  | disjElim | conjElim =>
      obtain ⟨a, b, rfl⟩ := parseTwo_eq_ok h
      exact isWritable_of_positions nofun rfl
  | elim =>
      obtain ⟨i, rfl, hi⟩ := parseElim_eq_ok h
      exact ⟨nofun, List.forall_mem_singleton.mpr hi⟩
  | weaken =>
      obtain ⟨is, rfl, hne, hall⟩ := parseWeaken_eq_ok h
      exact ⟨fun _ => hne, hall⟩

/-- **What is read can be written.** -/
theorem isWritable_of_parse {line : Text} (h : parse line = .ok r) : r.IsWritable := by
  rw [parse, parseTrimmed] at h
  cases hc : Command.ofName? line.trim.firstWord.1 with
  | none => simp [hc] at h
  | some c =>
      simp only [hc] at h
      split at h
      · contradiction
      · next r' hr =>
          obtain rfl := Except.ok.inj h
          exact isWritable_of_parseArgs hr

end

/-- **Requests survive writing and reading.**  A call that is a request, with
positions that fit a signed word and one at least if it is a weakening, is read
back from its wording as exactly that call.  And every text that is read as a
request, whatever its bytes, gives one that passes the check of calls, is read
back from its own wording, and is never refused for its form, whatever sequent
it is applied to. -/
theorem parse_wording :
    (∀ (call : Call) (r : Request), call.check = .ok r →
      (r.command = .weaken → call.positions ≠ []) → (∀ i ∈ call.positions, IsPosition i) →
      parse (Text.ofBytes r.toString.toUTF8.data.toList) = .ok r ∧ r.call = call) ∧
    ∀ (line : List UInt8) (r : Request), parse (Text.ofBytes line) = .ok r →
      r.call.check = .ok r ∧ parse (Text.ofBytes r.toString.toUTF8.data.toList) = .ok r ∧
      ∀ (s : Sequent) (e : RequestError), s.applyCall r.call ≠ .error (.request e) := by
  simp only [Text.ofBytes_toUTF8]
  constructor
  · intro call r hcheck hne hall
    obtain rfl := Call.call_of_check hcheck
    exact ⟨parse_toString ⟨hne, hall⟩, rfl⟩
  · intro line r hline
    exact ⟨r.check_call, parse_toString (isWritable_of_parse hline),
      fun s e => s.applyCall_call_ne_request r e⟩

/-- The two ends of the signed word, one of them twice, are read back; and a
text with a blank that is no ASCII character is read as the elimination that
is written with a space. -/
theorem parse_wording_extremes :
    let call : Call := ⟨12, [], [-9223372036854775808, 9223372036854775807, -9223372036854775808]⟩
    let line : List UInt8 := "e　+7".toUTF8.data.toList
    (call.check = .ok (.weaken call.positions) ∧
      parse (Text.ofBytes (weaken call.positions).toString.toUTF8.data.toList) =
        .ok (.weaken call.positions)) ∧
    (parse (Text.ofBytes line) = .ok (.elim 7) ∧
      parse (Text.ofBytes (elim 7).toString.toUTF8.data.toList) = .ok (.elim 7)) := by
  intro call line
  have hcheck : call.check = .ok (.weaken call.positions) := rfl
  have hall : ∀ i ∈ call.positions, IsPosition i := by
    simp [call, IsPosition, Number.signedLimit]
  have hline : parse (Text.ofBytes line) = .ok (.elim 7) := by
    rw [Text.ofBytes_toUTF8]
    decide
  exact ⟨⟨hcheck, (parse_wording.1 call _ hcheck (fun _ => by simp [call]) hall).1⟩,
    hline, (parse_wording.2 line _ hline).2.1⟩

end Request

end Sequitur
