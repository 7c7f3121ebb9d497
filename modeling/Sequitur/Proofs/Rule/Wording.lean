import Sequitur.Proofs.Text.Blank
import Sequitur.Proofs.Text.Number
import Sequitur.Rule.Request

/-!
# Sequitur.Proofs.Rule.Wording

Requests are read back as they are written.  A written request is the name of a
command, a blank and the arguments, so reading it comes down to reading the
arguments (`parse_command`).  Positions are numbers with blanks between them,
which are the fields of the arguments (`fields_joined`).
-/

namespace Sequitur

namespace Request

/-! ## Commands -/

theorem ofName?_name (c : Command) : Command.ofName? (Text.ofString c.name) = some c := by
  cases c <;> decide

theorem isBlank_of_mem_name {c : Command} {g : Glyph} (h : g ∈ Text.ofString c.name) :
    g.isBlank = false := by
  have hall : ∀ c : Command, (Text.ofString c.name).all (!·.isBlank) = true := by
    intro c
    cases c <;> decide
  simpa using List.all_eq_true.mp (hall c) g h

theorem ofString_name_ne_nil (c : Command) : Text.ofString c.name ≠ [] := by
  cases c <;> decide

/-- Behind the name of a command and a blank, arguments are read as such. -/
theorem parse_command {c : Command} {args : Text} {r : Request} (hargs : args.Bare)
    (hne : args ≠ []) (h : parseArgs args c = .ok r) :
    parse (Text.ofString c.name ++ .char ' ' :: args) = .ok r := by
  have hname : ∀ g ∈ Text.ofString c.name, g.isBlank = false := fun g => isBlank_of_mem_name
  have hline : Text.Bare (Text.ofString c.name ++ .char ' ' :: args) :=
    (Text.bare_of_forall hname).append hargs (ofString_name_ne_nil c) hne [.char ' ']
  have hblank : (Glyph.char ' ').isBlank = true := rfl
  have hrest : Text.trim (.char ' ' :: args) = args := by
    rw [Text.trim_cons_of_isBlank hblank, hargs.trim_eq]
  rw [parse, hline.trim_eq, parseTrimmed, Text.firstWord_append hname hblank]
  simp only [ofName?_name, hrest, h]

/-! ## Positions -/

/-- A string is a word if it is not empty and no separator is in it. -/
def IsWord (s : String) : Prop :=
  Text.ofString s ≠ [] ∧ ∀ g ∈ Text.ofString s, isSeparator g = false

theorem isBlank_of_isSeparator {g : Glyph} (h : isSeparator g = false) : g.isBlank = false := by
  rw [isSeparator, Bool.or_eq_false_iff] at h
  exact h.2

/-- Numbers are words. -/
theorem isWord_toString (i : Int) : IsWord (ToString.toString i) := by
  constructor
  · rw [Text.ofString, ne_eq, List.map_eq_nil_iff]
    exact Number.toList_toString_ne_nil i
  · intro g hg
    obtain ⟨c, hc, rfl⟩ := List.mem_map.mp hg
    rcases Number.isNumeral_of_mem hc with rfl | hdigit
    · decide
    · have hrange : 48 ≤ c.toNat ∧ c.toNat ≤ 57 := Char.isDigit_iff_toNat.mp hdigit
      have hcomma : c ≠ ',' := by
        rintro rfl
        contradiction
      have hblank : isBlankChar c = false := by
        simp only [isBlankChar, Bool.or_eq_false_iff, Bool.and_eq_false_iff,
          decide_eq_false_iff_not, beq_eq_false_iff_ne]
        omega
      simp [isSeparator, Glyph.isBlank, hcomma, hblank]

theorem ofString_joined_cons (s t : String) (ss : List String) :
    Text.ofString (joined " " (s :: t :: ss)) =
      Text.ofString s ++ .char ' ' :: Text.ofString (joined " " (t :: ss)) := by
  have hjoined : joined " " (s :: t :: ss) = s ++ " " ++ joined " " (t :: ss) := rfl
  rw [hjoined, Text.ofString_append, Text.ofString_append, List.append_assoc]
  rfl

theorem ofString_joined_ne_nil {ss : List String} (hne : ss ≠ []) (h : ∀ s ∈ ss, IsWord s) :
    Text.ofString (joined " " ss) ≠ [] := by
  match ss with
  | [] => contradiction
  | [s] => exact (h s List.mem_cons_self).1
  | s :: t :: ss =>
      rw [ofString_joined_cons]
      simp

/-- Joined words are the fields of what they are joined to. -/
theorem fields_joined {ss : List String} (h : ∀ s ∈ ss, IsWord s) :
    Text.fields isSeparator (Text.ofString (joined " " ss)) = ss.map Text.ofString := by
  induction ss with
  | nil => rfl
  | cons s ss ih =>
      obtain ⟨hs, hss⟩ := List.forall_mem_cons.mp h
      cases ss with
      | nil => exact Text.fields_word hs.1 hs.2
      | cons t ss =>
          rw [ofString_joined_cons, Text.fields_append hs.1 hs.2 (by rfl), ih hss]
          rfl

theorem bare_joined {ss : List String} (h : ∀ s ∈ ss, IsWord s) :
    Text.Bare (Text.ofString (joined " " ss)) := by
  induction ss with
  | nil => exact Text.bare_of_forall nofun
  | cons s ss ih =>
      obtain ⟨hs, hss⟩ := List.forall_mem_cons.mp h
      have hbare : (Text.ofString s).Bare :=
        Text.bare_of_forall fun g hg => isBlank_of_isSeparator (hs.2 g hg)
      cases ss with
      | nil => exact hbare
      | cons t ss =>
          rw [ofString_joined_cons]
          exact hbare.append (ih hss) hs.1 (ofString_joined_ne_nil (by simp) hss) [.char ' ']

/-! ## Weakening -/

/-- A position can be written if it fits a signed word. -/
def IsPosition (i : Int) : Prop := -(Number.signedLimit : Int) ≤ i ∧ i < Number.signedLimit

theorem mapM_parsePosition {is : List Int} (h : ∀ i ∈ is, IsPosition i) :
    (is.map fun i => Text.ofString (ToString.toString i)).mapM parsePosition = .ok is := by
  induction is with
  | nil => rfl
  | cons i is ih =>
      obtain ⟨hi, his⟩ := List.forall_mem_cons.mp h
      have hread : parsePosition (Text.ofString (ToString.toString i)) = .ok i := by
        rw [parsePosition, Number.read_toString hi.1 hi.2]
      rw [List.map_cons, List.mapM_cons, hread, ih his]
      rfl

/-- A written weakening: its name and its positions. -/
theorem toString_weaken {is : List Int} (hne : is ≠ []) :
    (weaken is).toString = "aff" ++ " " ++ joined " " (is.map ToString.toString) := by
  cases is with
  | nil => contradiction
  | cons i is => rfl

/-- **A weakening is read back** from its wording, if it has a position and all
positions fit a signed word. -/
theorem parse_toString_weaken {is : List Int} (hne : is ≠ []) (h : ∀ i ∈ is, IsPosition i) :
    parse (Text.ofString (weaken is).toString) = .ok (weaken is) := by
  have hwords : ∀ s ∈ is.map ToString.toString, IsWord s := by
    intro s hs
    obtain ⟨i, -, rfl⟩ := List.mem_map.mp hs
    exact isWord_toString i
  have hstrings : is.map ToString.toString ≠ [] := by simpa using hne
  have hargs : parseArgs (Text.ofString (joined " " (is.map ToString.toString))) .weaken =
      .ok (weaken is) := by
    rw [parseArgs, fields_joined hwords, List.map_map]
    cases is with
    | nil => contradiction
    | cons i is =>
        have hmapM := mapM_parsePosition h
        rw [List.map_cons] at hmapM ⊢
        exact congrArg (· >>= fun is => Except.ok (weaken is)) hmapM
  rw [toString_weaken hne, Text.ofString_append, Text.ofString_append, List.append_assoc]
  exact parse_command (c := .weaken) (bare_joined hwords)
    (ofString_joined_ne_nil hstrings hwords) hargs

end Request

end Sequitur
