import Mathlib.Data.Bool.AllAny
import Sequitur.Proofs.Formula.RoundTrip
import Sequitur.Proofs.Text.Blank
import Sequitur.Sequent.Parser

/-!
# Sequitur.Proofs.Sequent.RoundTrip

A printed sequent is read back as the sequent it was, in every style; so two
sequents that are printed alike are the same.

Formulas are printed without blanks, commas and turnstiles
(`Formula.isFormulaChar_of_mem`).  So the one turnstile cuts the text where
the conclusion starts (`cut?_append`), the commas cut the rest where the
hypotheses end (`splitOn_append`), and the blanks that are left around the
formulas are skipped when they are read (`Reads.blank_cons`,
`Reads.concat_blank`).
-/

namespace Sequitur

/-! ## The characters of printed formulas -/

/-- The characters that formulas are not separated by. -/
def isFormulaChar (c : Char) : Bool := !isBlankChar c && c != ',' && c != '|' && c != '⊢'

theorem isFormulaChar_iff {c : Char} :
    isFormulaChar c = true ↔ isBlankChar c = false ∧ c ≠ ',' ∧ c ≠ '|' ∧ c ≠ '⊢' := by
  simp [isFormulaChar, and_assoc]

/-- A name character stands for itself only. -/
theorem isFormulaChar_of_isNameChar {c : Char} (h : isNameChar c = true) :
    isFormulaChar c = true := by
  have hrange : (97 ≤ c.toNat ∧ c.toNat ≤ 122) ∨ (65 ≤ c.toNat ∧ c.toNat ≤ 90) ∨
      (48 ≤ c.toNat ∧ c.toNat ≤ 57) ∨ c.toNat = 95 := by
    simp only [isNameChar, isLetter, Bool.or_eq_true, Bool.and_eq_true, decide_eq_true_eq,
      beq_iff_eq, Char.le_def, UInt32.le_iff_toNat_le] at h
    rcases h with ((⟨h₁, h₂⟩ | ⟨h₁, h₂⟩) | ⟨h₁, h₂⟩) | rfl
    · exact .inl ⟨h₁, h₂⟩
    · exact .inr (.inl ⟨h₁, h₂⟩)
    · exact .inr (.inr (.inl ⟨h₁, h₂⟩))
    · exact .inr (.inr (.inr rfl))
  rw [isFormulaChar_iff]
  refine ⟨?_, ?_, ?_, ?_⟩
  · simp [isBlankChar]
    omega
  · rintro rfl
    revert hrange
    decide
  · rintro rfl
    revert hrange
    decide
  · rintro rfl
    revert hrange
    decide

/-- The symbols of formulas are written with such characters. -/
theorem Symbol.isFormulaChar_of_mem {s : Symbol} {l : Lexeme} (h : s.lexeme? = some l)
    (unicode : Bool) : ∀ c ∈ (s.spelling unicode).toList, isFormulaChar c = true := by
  rw [← List.all_eq_true]
  cases s <;> cases h <;> cases unicode <;> decide

theorem Symbol.text_span_comma (st : Style) : (Symbol.comma.span st).text = "," := by
  rw [Symbol.span]
  cases st.unicode <;> rfl

theorem Span.mem_toList_plainText {spans : List Span} {c : Char} :
    c ∈ (plainText spans).toList ↔ ∃ s ∈ spans, c ∈ s.text.toList := by
  induction spans with
  | nil => simp [plainText]
  | cons s spans ih => simp [plainText, ih]

/-- Emphasis does not change the text. -/
theorem Span.plainText_emphasize (spans : List Span) :
    plainText (emphasize spans) = plainText spans := by
  induction spans with
  | nil => rfl
  | cons s spans ih =>
      rw [emphasize] at ih ⊢
      rw [List.map_cons, plainText, plainText, ih]

namespace Formula

/-- **What formulas are printed with**: names and the symbols of formulas. -/
theorem forall_mem_format {st : Style} {P : Span → Prop}
    (hname : ∀ x : Name, P { text := x.toString, cls := .name })
    (hsymbol : ∀ (s : Symbol) (l : Lexeme), s.lexeme? = some l → P (s.span st)) (p : Formula) :
    ∀ s ∈ p.format st, P s := by
  have hwrap : ∀ (need : Bool) {spans : List Span}, (∀ s ∈ spans, P s) →
      ∀ s ∈ wrap st need spans, P s := by
    intro need spans h
    rw [wrap]
    split
    · rw [List.cons_append, List.forall_mem_cons, List.forall_mem_append,
        List.forall_mem_singleton]
      exact ⟨hsymbol .lparen _ rfl, h, hsymbol .rparen _ rfl⟩
    · exact h
  induction p with
  | falsity =>
      rw [format, List.forall_mem_singleton]
      exact hsymbol .falsity _ rfl
  | var x =>
      rw [format, List.forall_mem_singleton]
      exact hname x
  | bin c l r ihl ihr =>
      rw [format]
      split
      · rw [List.forall_mem_cons]
        exact ⟨hsymbol .neg _ rfl, hwrap _ ihl⟩
      · rw [List.forall_mem_append, List.forall_mem_cons]
        exact ⟨hwrap _ ihl, hsymbol _ _ c.lexeme?_symbol, hwrap _ ihr⟩

theorem isFormulaChar_format (st : Style) (p : Formula) :
    ∀ s ∈ p.format st, ∀ c ∈ s.text.toList, isFormulaChar c = true := by
  apply forall_mem_format (P := fun s => ∀ c ∈ s.text.toList, isFormulaChar c = true)
  · intro x c hc
    exact isFormulaChar_of_isNameChar (x.isNameChar_of_mem hc)
  · intro s l hl
    exact Symbol.isFormulaChar_of_mem hl st.unicode

/-- **Formulas are printed without blanks, commas and turnstiles.** -/
theorem isFormulaChar_of_mem (st : Style) (p : Formula) {c : Char}
    (h : c ∈ (p.print st).toList) : isFormulaChar c = true := by
  obtain ⟨s, hs, hc⟩ := Span.mem_toList_plainText.mp h
  exact isFormulaChar_format st p s hs c hc

/-- No formula is printed as nothing, since nothing is no formula. -/
theorem toList_print_ne_nil (st : Style) (p : Formula) : (p.print st).toList ≠ [] := by
  intro hnil
  have hread := parse_of_reads (reads_format st p)
  have htext : Text.ofString (Span.plainText (p.format st)) = [] := by
    rw [Text.ofString, List.map_eq_nil_iff]
    exact hnil
  have hempty : parse [] = .error (.grammar .emptyExpression) := by decide +kernel
  rw [htext, hempty] at hread
  contradiction

end Formula

/-! ## Blanks around a formula -/

/-- The blank between the parts of a sequent. -/
abbrev blankSpan : Span := { text := " ", cls := .plain }

/-- A blank between two texts. -/
theorem Prints.blank {left right : List Span} {ls rs : List Lexeme} (hleft : Prints left ls)
    (hright : Prints right rs) : Prints (left ++ blankSpan :: right) (ls ++ rs) := by
  obtain ⟨v, hv, rfl⟩ := hleft
  obtain ⟨w, hw, rfl⟩ := hright
  refine ⟨⟨v.segments ++ .gap ' ' rfl :: w.segments,
    Segment.separated_append_cons v.separated rfl w.separated⟩, ?_, ?_⟩
  · rw [Text.ofString, Span.toList_plainText_append, Span.plainText, String.toList_append,
      List.map_append, List.map_append]
    rw [Text.ofString] at hv hw
    rw [← hv, ← hw, Spelling.text, Segment.textOf, List.flatMap_append, List.flatMap_cons]
    rfl
  · rw [Spelling.lexemes_eq, Spelling.lexemes_eq, Spelling.lexemes_eq, List.flatMap_append,
      List.flatMap_cons]
    rfl

theorem Reads.blank_cons {level : Level} {spans : List Span} {p : Formula}
    (h : Reads level spans p) : Reads level (blankSpan :: spans) p := by
  obtain ⟨ls, hls, hp⟩ := h
  exact ⟨ls, prints_nil.blank hls, hp⟩

theorem Reads.concat_blank {level : Level} {spans : List Span} {p : Formula}
    (h : Reads level spans p) : Reads level (spans ++ [blankSpan]) p := by
  obtain ⟨ls, hls, hp⟩ := h
  refine ⟨ls, ?_, hp⟩
  have hprints := hls.blank prints_nil
  rwa [List.append_nil] at hprints

/-! ## Cutting a text -/

namespace Text

theorem ofString_plainText_append (left right : List Span) :
    ofString (Span.plainText (left ++ right)) =
      ofString (Span.plainText left) ++ ofString (Span.plainText right) := by
  rw [ofString, Span.toList_plainText_append, List.map_append, ofString, ofString]

theorem splitOn_of_not_mem {sep : Char} {t : Text} (h : .char sep ∉ t) : t.splitOn sep = [t] := by
  induction t with
  | nil => rfl
  | cons g t ih =>
      rw [List.mem_cons, not_or] at h
      rw [splitOn, if_neg (Ne.symm h.1), ih h.2]

theorem splitOn_append {sep : Char} {t : Text} (h : .char sep ∉ t) (u : Text) :
    splitOn sep (t ++ .char sep :: u) = t :: splitOn sep u := by
  induction t with
  | nil => rw [List.nil_append, splitOn, if_pos rfl]
  | cons g t ih =>
      rw [List.mem_cons, not_or] at h
      rw [List.cons_append, splitOn, if_neg (Ne.symm h.1), ih h.2]

end Text

namespace Sequent

/-- Whether a turnstile may start with a glyph. -/
def startsTurnstile (g : Glyph) : Bool := g = .char '⊢' || g = .char '|'

theorem afterTurnstile?_eq_none {g : Glyph} (h : startsTurnstile g = false) (t : Text) :
    afterTurnstile? (g :: t) = none := by
  unfold afterTurnstile?
  split
  · simp_all [startsTurnstile]
  · simp_all [startsTurnstile]
  · rfl

theorem countTurnstiles_append {t : Text} (h : ∀ g ∈ t, startsTurnstile g = false) (u : Text) :
    countTurnstiles (t ++ u) = countTurnstiles u := by
  induction t with
  | nil => rfl
  | cons g t ih =>
      obtain ⟨hg, ht⟩ := List.forall_mem_cons.mp h
      rw [List.cons_append, countTurnstiles, afterTurnstile?_eq_none hg, ih ht]
      exact Nat.zero_add _

theorem cut?_append {t : Text} (h : ∀ g ∈ t, startsTurnstile g = false) {u right : Text}
    (hu : cut? u = some ([], right)) : cut? (t ++ u) = some (t, right) := by
  induction t with
  | nil => exact hu
  | cons g t ih =>
      obtain ⟨hg, ht⟩ := List.forall_mem_cons.mp h
      rw [List.cons_append, cut?, afterTurnstile?_eq_none hg, ih ht]
      rfl

/-- The turnstile in either spelling, and nothing else, is a turnstile. -/
theorem cut?_turnstile (st : Style) (u : Text) :
    cut? (Text.ofString (Symbol.turnstile.spelling st.unicode) ++ u) = some ([], u) := by
  cases h : st.unicode <;> rfl

theorem countTurnstiles_turnstile (st : Style) {u : Text}
    (h : ∀ g ∈ u, startsTurnstile g = false) :
    countTurnstiles (Text.ofString (Symbol.turnstile.spelling st.unicode) ++ u) = 1 := by
  have hu : countTurnstiles u = 0 := by
    have happend := countTurnstiles_append h []
    rwa [List.append_nil] at happend
  cases st.unicode
  · have hdash : countTurnstiles (.char '-' :: u) = 0 := by
      rw [countTurnstiles, afterTurnstile?_eq_none rfl, hu]
      rfl
    have hbar : afterTurnstile? (.char '|' :: .char '-' :: u) = some u := rfl
    have htext : Text.ofString (Symbol.turnstile.spelling false) ++ u =
        .char '|' :: .char '-' :: u := rfl
    rw [htext, countTurnstiles, hbar, hdash]
    rfl
  · have htack : afterTurnstile? (.char '⊢' :: u) = some u := rfl
    have htext : Text.ofString (Symbol.turnstile.spelling true) ++ u = .char '⊢' :: u := rfl
    rw [htext, countTurnstiles, htack, hu]
    rfl

/-! ## Hypotheses -/

/-- Text without the characters of a turnstile starts none. -/
theorem startsTurnstile_of_mem {spans : List Span}
    (h : ∀ s ∈ spans, ∀ c ∈ s.text.toList, c ≠ '|' ∧ c ≠ '⊢') :
    ∀ g ∈ Text.ofString (Span.plainText spans), startsTurnstile g = false := by
  intro g hg
  obtain ⟨c, hc, rfl⟩ := List.mem_map.mp hg
  obtain ⟨s, hs, hcs⟩ := Span.mem_toList_plainText.mp hc
  obtain ⟨hbar, htack⟩ := h s hs c hcs
  simp [startsTurnstile, hbar, htack]

theorem noTurnstile_format (st : Style) (p : Formula) :
    ∀ s ∈ p.format st, ∀ c ∈ s.text.toList, c ≠ '|' ∧ c ≠ '⊢' := by
  intro s hs c hc
  exact (isFormulaChar_iff.mp (p.isFormulaChar_format st s hs c hc)).2.2

theorem noTurnstile_blankSpan : ∀ c ∈ blankSpan.text.toList, c ≠ '|' ∧ c ≠ '⊢' :=
  List.all_iff_forall_prop.mp (by decide)

theorem noTurnstile_formatHyps (st : Style) (hs : List Formula) :
    ∀ s ∈ formatHyps st hs, ∀ c ∈ s.text.toList, c ≠ '|' ∧ c ≠ '⊢' := by
  have hcomma : ∀ c ∈ (Symbol.comma.span st).text.toList, c ≠ '|' ∧ c ≠ '⊢' := by
    rw [Symbol.text_span_comma]
    exact List.all_iff_forall_prop.mp (by decide)
  fun_induction formatHyps st hs with
  | case1 => exact List.forall_mem_nil _
  | case2 h =>
      rw [List.forall_mem_append, List.forall_mem_singleton]
      exact ⟨noTurnstile_format st h, noTurnstile_blankSpan⟩
  | case3 h hs _ ih =>
      rw [List.forall_mem_append, List.forall_mem_cons, List.forall_mem_cons]
      exact ⟨noTurnstile_format st h, hcomma, noTurnstile_blankSpan, ih⟩

theorem comma_not_mem {spans : List Span} (h : ∀ s ∈ spans, ',' ∉ s.text.toList) :
    .char ',' ∉ Text.ofString (Span.plainText spans) := by
  intro hmem
  obtain ⟨c, hc, heq⟩ := List.mem_map.mp hmem
  obtain rfl := Glyph.char.inj heq
  obtain ⟨s, hs, hcs⟩ := Span.mem_toList_plainText.mp hc
  exact h s hs hcs

theorem noComma_blankSpan : ∀ s ∈ [blankSpan], ',' ∉ s.text.toList := by decide

/-- A formula, with or without a blank in front, has no comma. -/
theorem noComma_format (st : Style) (p : Formula) {before : List Span}
    (hbefore : before = [] ∨ before = [blankSpan]) :
    ∀ s ∈ before ++ p.format st, ',' ∉ s.text.toList := by
  rw [List.forall_mem_append]
  constructor
  · rcases hbefore with rfl | rfl
    · exact List.forall_mem_nil _
    · exact noComma_blankSpan
  · intro s hs hcs
    exact absurd (p.isFormulaChar_format st s hs ',' hcs) (by decide)

/-- The hypotheses are read back from what the commas leave.  All but the
first of them have a blank in front. -/
theorem parseHyps_splitOn (st : Style) {before : List Span}
    (hbefore : before = [] ∨ before = [blankSpan]) (i : Nat) (h : Formula) (hs : List Formula) :
    parseHyps i (Text.splitOn ','
      (Text.ofString (Span.plainText (before ++ formatHyps st (h :: hs))))) = .ok (h :: hs) := by
  induction hs generalizing before i h with
  | nil =>
      have hread : Reads (h.level st) (before ++ h.format st ++ [blankSpan]) h := by
        rcases hbefore with rfl | rfl
        · exact (h.reads_format st).concat_blank
        · exact (h.reads_format st).concat_blank.blank_cons
      have hcomma := comma_not_mem
        (List.forall_mem_append.mpr ⟨noComma_format st h hbefore, noComma_blankSpan⟩)
      rw [formatHyps, ← List.append_assoc, Text.splitOn_of_not_mem hcomma, parseHyps,
        Formula.parse_of_reads hread]
      rfl
  | cons h' hs ih =>
      have hread : Reads (h.level st) (before ++ h.format st) h := by
        rcases hbefore with rfl | rfl
        · exact h.reads_format st
        · exact (h.reads_format st).blank_cons
      have hcomma := comma_not_mem (noComma_format st h hbefore)
      have htext : Text.ofString (Span.plainText (before ++ formatHyps st (h :: h' :: hs))) =
          Text.ofString (Span.plainText (before ++ h.format st)) ++ .char ',' ::
            Text.ofString (Span.plainText ([blankSpan] ++ formatHyps st (h' :: hs))) := by
        rw [formatHyps, ← List.append_assoc, Text.ofString_plainText_append, Span.plainText,
          Symbol.text_span_comma, Text.ofString_append]
        · rfl
        · exact List.cons_ne_nil h' hs
      rw [htext, Text.splitOn_append hcomma, parseHyps, Formula.parse_of_reads hread]
      simp only [ih (.inr rfl) (i + 1) h']
      rfl

/-! ## Sequents -/

/-- A text with something printed in it is not blank. -/
theorem isBlank_eq_false (st : Style) (h : Formula) (hs : List Formula) :
    (Text.ofString (Span.plainText (formatHyps st (h :: hs)))).isBlank = false := by
  obtain ⟨c, cs, hcs⟩ := List.exists_cons_of_ne_nil (h.toList_print_ne_nil st)
  have hc : isFormulaChar c = true := h.isFormulaChar_of_mem st (hcs ▸ List.mem_cons_self)
  have hblank : isBlankChar c = false := (isFormulaChar_iff.mp hc).1
  have htext : ∃ rest, formatHyps st (h :: hs) = h.format st ++ rest := by
    cases hs with
    | nil => exact ⟨_, rfl⟩
    | cons h' hs => exact ⟨_, rfl⟩
  obtain ⟨rest, hrest⟩ := htext
  have hprint : (Span.plainText (h.format st)).toList = c :: cs := hcs
  rw [hrest, Text.ofString_plainText_append, Text.ofString, hprint, Text.isBlank]
  simp [Glyph.isBlank, hblank]

/-- **A printed sequent is read back as itself.** -/
theorem parse_ofString_print (st : Style) (s : Sequent) :
    parse (Text.ofString (s.print st)) = .ok s := by
  obtain ⟨hyps, concl⟩ := s
  have htext : Text.ofString (print st ⟨hyps, concl⟩) =
      Text.ofString (Span.plainText (formatHyps st hyps)) ++
        (Text.ofString (Symbol.turnstile.spelling st.unicode) ++
          Text.ofString (Span.plainText (blankSpan :: concl.format st))) := by
    rw [print, format, Text.ofString_plainText_append, Span.plainText, Text.ofString_append]
    rfl
  have hleft := startsTurnstile_of_mem (noTurnstile_formatHyps st hyps)
  have hright : ∀ g ∈ Text.ofString (Span.plainText (blankSpan :: concl.format st)),
      startsTurnstile g = false := by
    apply startsTurnstile_of_mem
    rw [List.forall_mem_cons]
    exact ⟨noTurnstile_blankSpan, noTurnstile_format st concl⟩
  have hcount : countTurnstiles (Text.ofString (print st ⟨hyps, concl⟩)) = 1 := by
    rw [htext, countTurnstiles_append hleft, countTurnstiles_turnstile st hright]
  have hcut := cut?_append hleft (cut?_turnstile st
    (Text.ofString (Span.plainText (blankSpan :: concl.format st))))
  rw [← htext] at hcut
  have hconcl := Formula.parse_of_reads (concl.reads_format st).blank_cons
  have hhyps : parseHyps 0 (if (Text.ofString (Span.plainText (formatHyps st hyps))).isBlank then []
      else Text.splitOn ',' (Text.ofString (Span.plainText (formatHyps st hyps)))) = .ok hyps := by
    cases hyps with
    | nil => rfl
    | cons h hs =>
        rw [isBlank_eq_false, if_neg Bool.false_ne_true]
        exact parseHyps_splitOn st (.inl rfl) 0 h hs
  rw [parse, hcount, if_neg (Nat.lt_irrefl 1), hcut]
  simp only [hhyps, hconcl, bind, Except.bind]

/-- Sequents that are printed alike are the same. -/
theorem print_injective (st : Style) {s t : Sequent} (h : s.print st = t.print st) : s = t := by
  have hs := s.parse_ofString_print st
  rw [h, t.parse_ofString_print st] at hs
  exact (Except.ok.inj hs).symm

theorem plainText_format (st : Style) (emphasis : Bool) (s : Sequent) :
    Span.plainText (s.format st emphasis) = s.print st := by
  apply String.toList_inj.mp
  cases emphasis with
  | false => rfl
  | true =>
      rw [print, format, format, Span.toList_plainText_append, Span.toList_plainText_append]
      simp [Span.plainText, Span.plainText_emphasize]

/-- **A formatted sequent is read back as itself**: the same hypotheses in the
same order and the same conclusion, in every style, with and without emphasis,
and also when the text is passed on as bytes. -/
theorem parse_plainText_format (st : Style) (emphasis : Bool) (s : Sequent) :
    parse (Text.ofString (Span.plainText (s.format st emphasis))) = .ok s ∧
      parse (Text.ofBytes (Span.plainText (s.format st emphasis)).toUTF8.data.toList) = .ok s := by
  rw [plainText_format, Text.ofBytes_toUTF8]
  exact ⟨s.parse_ofString_print st, s.parse_ofString_print st⟩

end Sequent

end Sequitur
