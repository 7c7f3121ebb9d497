import Mathlib.Data.List.DropRight
import Sequitur.Picture.Theme
import Sequitur.Proofs.Picture.Placement

/-!
# Sequitur.Proofs.Picture.Coloring

Colours do not change a drawing: without the escape sequences it is the drawing
that is made without colours, whatever the codes are.

What is left of a text must not depend on what follows it, or texts could not be
put together; `Reveals t u` says that `u` is left of `t`, whatever follows.  A line
loses the spaces at its end, and an escape sequence would keep spaces before it from
being dropped.  `Repaints t u` says that this makes no difference.  It holds of
sequents, because they end in a word, and so it holds of pieces and of rows.

It matters that names are words.  Behind a name that ends in a space, the escape
sequence keeps the space (`withoutEscapes_colored_ne_blank_name`).
-/

namespace Sequitur

/-- No code holds the letter that ends an escape sequence. -/
theorem Codes.not_mem (codes : Codes) : 'm' ∉ codes.text.toList := by
  intro hmem
  exact absurd (List.all_eq_true.mp codes.isCode 'm' hmem) (by decide)

namespace Theme

/-! ## Escape sequences -/

mutual

/-- A text without its escape sequences. -/
def withoutEscapes : List Char → List Char
  | [] => []
  | '\x1b' :: '[' :: rest => afterCodes rest
  | c :: rest => c :: withoutEscapes rest

/-- What is left of a text that starts within an escape sequence. -/
def afterCodes : List Char → List Char
  | [] => []
  | 'm' :: rest => withoutEscapes rest
  | _ :: rest => afterCodes rest

end

theorem withoutEscapes_cons {c : Char} (h : c ≠ '\x1b') (t : List Char) :
    withoutEscapes (c :: t) = c :: withoutEscapes t := by
  rw [withoutEscapes]
  intro rest hc
  exact absurd hc h

theorem afterCodes_append {codes : List Char} (h : 'm' ∉ codes) (t : List Char) :
    afterCodes (codes ++ 'm' :: t) = withoutEscapes t := by
  induction codes with
  | nil => rw [List.nil_append, afterCodes]
  | cons c codes ih =>
      rw [List.mem_cons, not_or] at h
      rw [List.cons_append, afterCodes, ih h.2]
      exact fun hc => h.1 hc.symm

/-- Without its escape sequences, `t` is `u`, whatever follows it. -/
def Reveals (t u : List Char) : Prop :=
  ∀ rest, withoutEscapes (t ++ rest) = u ++ withoutEscapes rest

namespace Reveals

theorem eq {t u : List Char} (h : Reveals t u) : withoutEscapes t = u := by
  have hnil := h []
  rwa [List.append_nil, withoutEscapes, List.append_nil] at hnil

theorem nil : Reveals [] [] := fun _ => rfl

theorem append {t u t' u' : List Char} (h : Reveals t u) (h' : Reveals t' u') :
    Reveals (t ++ t') (u ++ u') := by
  intro rest
  rw [List.append_assoc, h, h', List.append_assoc]

theorem bare {t : List Char} (h : '\x1b' ∉ t) : Reveals t t := by
  intro rest
  induction t with
  | nil => rfl
  | cons c t ih =>
      rw [List.mem_cons, not_or] at h
      rw [List.cons_append, withoutEscapes_cons (Ne.symm h.1), ih h.2, List.cons_append]

theorem escaped (codes : Codes) {text : String} (htext : '\x1b' ∉ text.toList) :
    Reveals (escaped codes text).toList text.toList := by
  intro rest
  have hlist : (Theme.escaped codes text).toList ++ rest =
      '\x1b' :: '[' :: (codes.text.toList ++ 'm' ::
        (text.toList ++ '\x1b' :: '[' :: (['0'] ++ 'm' :: rest))) := by
    simp [Theme.escaped]
  rw [hlist, withoutEscapes, afterCodes_append codes.not_mem, bare htext, withoutEscapes,
    afterCodes_append (by decide)]

theorem eachEscaped (codes : Codes) {t : List Char} (ht : '\x1b' ∉ t) :
    Reveals (eachEscaped codes t).toList t := by
  induction t with
  | nil => exact nil
  | cons c t ih =>
      rw [List.mem_cons, not_or] at ht
      have hfirst : Reveals (Theme.escaped codes c.toString).toList c.toString.toList :=
        escaped codes (by simpa using ht.1)
      rw [Char.toString_eq_singleton, String.toList_singleton] at hfirst
      rw [Theme.eachEscaped, String.toList_append]
      exact hfirst.append (ih ht.2)

end Reveals

variable (palette : Palette)

theorem reveals_paintSpan {s : Span} (h : '\x1b' ∉ s.text.toList) :
    Reveals (paintSpan palette s).toList s.text.toList := by
  rw [paintSpan]
  split
  · exact .eachEscaped _ h
  · split
    · exact .escaped _ h
    · exact .bare h

/-- **Painted text is left without its escape sequences.** -/
theorem reveals_colored {spans : List Span} (h : ∀ s ∈ spans, '\x1b' ∉ s.text.toList) :
    Reveals (colored palette spans).toList (Span.plainText spans).toList := by
  induction spans with
  | nil => exact .nil
  | cons s spans ih =>
      rw [List.forall_mem_cons] at h
      rw [colored, Span.plainText, String.toList_append, String.toList_append]
      exact (reveals_paintSpan palette h.1).append (ih h.2)

/-! ## Spaces at the end -/

/-- A text without the spaces at its end. -/
abbrev trimmed (t : List Char) : List Char := t.rdropWhile (· = ' ')

theorem toList_trimLine (line : String) :
    (Picture.trimLine line).toList = trimmed line.toList := by
  rw [Picture.trimLine, String.toList_ofList, trimmed, List.rdropWhile]

theorem trimmed_append (t u : List Char) :
    trimmed (t ++ u) = if trimmed u = [] then trimmed t else t ++ trimmed u := by
  simp only [trimmed, List.rdropWhile, List.reverse_append, List.dropWhile_append,
    List.isEmpty_iff, List.reverse_eq_nil_iff]
  split
  · rfl
  · rw [List.reverse_append, List.reverse_reverse]

/-- A text that does not end in a space. -/
def EndsInInk (t : List Char) : Prop := ∃ u c, t = u ++ [c] ∧ c ≠ ' '

namespace EndsInInk

variable {t u : List Char}

theorem trimmed_eq (h : EndsInInk t) : trimmed t = t := by
  obtain ⟨u, c, rfl, hc⟩ := h
  exact List.rdropWhile_concat_neg _ _ _ (by simpa using hc)

theorem ne_nil (h : EndsInInk t) : t ≠ [] := by
  obtain ⟨u, c, rfl, -⟩ := h
  simp

theorem append_left (h : EndsInInk u) (t : List Char) : EndsInInk (t ++ u) := by
  obtain ⟨v, c, rfl, hc⟩ := h
  exact ⟨t ++ v, c, (List.append_assoc ..).symm, hc⟩

theorem of_word (hne : t ≠ []) (h : ' ' ∉ t) : EndsInInk t := by
  refine ⟨t.dropLast, t.getLast hne, (List.dropLast_append_getLast hne).symm, ?_⟩
  intro hlast
  exact h (hlast ▸ List.getLast_mem hne)

/-- The last character of an escaped text ends the escape sequence behind it. -/
theorem escaped (codes : Codes) (text : String) : EndsInInk (escaped codes text).toList := by
  refine ⟨('\x1b' :: '[' :: codes.text.toList) ++ 'm' :: text.toList ++ ['\x1b', '[', '0'], 'm', ?_,
    by decide⟩
  simp [Theme.escaped]

theorem eachEscaped (codes : Codes) (hne : t ≠ []) : EndsInInk (eachEscaped codes t).toList := by
  induction t with
  | nil => contradiction
  | cons c t ih =>
      rw [Theme.eachEscaped, String.toList_append]
      cases t with
      | nil => simpa [Theme.eachEscaped] using escaped codes c.toString
      | cons d t => exact (ih (List.cons_ne_nil d t)).append_left _

end EndsInInk

/-- Without its escape sequences, `t` is `u`, be it before or after both have lost the
spaces at their ends; and both are spaces only, or neither is. -/
structure Repaints (t u : List Char) : Prop where
  reveals : Reveals t u
  trimmed : Reveals (trimmed t) (trimmed u)
  blank_iff : Theme.trimmed t = [] ↔ Theme.trimmed u = []

namespace Repaints

variable {t u t' u' : List Char}

theorem bare (h : '\x1b' ∉ t) : Repaints t t where
  reveals := .bare h
  trimmed := .bare fun hmem => h ((List.rdropWhile_prefix _ t).subset hmem)
  blank_iff := .rfl

theorem of_ink (h : Reveals t u) (ht : EndsInInk t) (hu : EndsInInk u) : Repaints t u where
  reveals := h
  trimmed := by rwa [ht.trimmed_eq, hu.trimmed_eq]
  blank_iff := by
    rw [ht.trimmed_eq, hu.trimmed_eq]
    exact iff_of_false ht.ne_nil hu.ne_nil

theorem append (h : Repaints t u) (h' : Repaints t' u') : Repaints (t ++ t') (u ++ u') where
  reveals := h.reveals.append h'.reveals
  trimmed := by
    rw [trimmed_append, trimmed_append]
    by_cases hblank : Theme.trimmed t' = []
    · rw [if_pos hblank, if_pos (h'.blank_iff.mp hblank)]
      exact h.trimmed
    · rw [if_neg hblank, if_neg (mt h'.blank_iff.mpr hblank)]
      exact h.reveals.append h'.trimmed
  blank_iff := by
    have hleft := h.blank_iff
    have hright := h'.blank_iff
    simp only [List.rdropWhile_eq_nil_iff] at hleft hright ⊢
    rw [List.forall_mem_append, List.forall_mem_append, hleft, hright]

end Repaints

end Theme

open Theme

/-! ## Spans -/

/-- A span that is a word: something is written, but no spaces and no escapes. -/
structure Span.IsWord (s : Span) : Prop where
  ne_nil : s.text.toList ≠ []
  space_not_mem : ' ' ∉ s.text.toList
  escape_not_mem : '\x1b' ∉ s.text.toList

namespace Span

theorem IsWord.emphasize {s : Span} (h : s.IsWord) : IsWord { s with emphasis := true } :=
  ⟨h.ne_nil, h.space_not_mem, h.escape_not_mem⟩

variable (palette : Palette)

/-- A word ends in ink, and so does what is painted for it. -/
theorem IsWord.endsInInk {s : Span} (h : s.IsWord) : EndsInInk s.text.toList :=
  .of_word h.ne_nil h.space_not_mem

theorem IsWord.endsInInk_paintSpan {s : Span} (h : s.IsWord) :
    EndsInInk (paintSpan palette s).toList := by
  rw [paintSpan]
  split
  · exact .eachEscaped _ h.ne_nil
  · split
    · exact .escaped _ _
    · exact h.endsInInk

theorem toList_colored_append (front back : List Span) :
    (colored palette (front ++ back)).toList =
      (colored palette front).toList ++ (colored palette back).toList := by
  induction front with
  | nil => rfl
  | cons s front ih =>
      rw [List.cons_append, colored, colored, String.toList_append, String.toList_append, ih,
        List.append_assoc]

/-- **A text that ends in words does not change when it is painted.** -/
theorem repaints_colored {front words : List Span} (hfront : ∀ s ∈ front, '\x1b' ∉ s.text.toList)
    (hne : words ≠ []) (hwords : ∀ s ∈ words, s.IsWord) :
    Repaints (colored palette (front ++ words)).toList (plainText (front ++ words)).toList := by
  have hescape : ∀ s ∈ front ++ words, '\x1b' ∉ s.text.toList :=
    List.forall_mem_append.mpr ⟨hfront, fun s hs => (hwords s hs).escape_not_mem⟩
  obtain ⟨more, last, rfl⟩ := (List.eq_nil_or_concat' words).resolve_left hne
  have hlast : last.IsWord := hwords last (by simp)
  rw [← List.append_assoc] at hescape ⊢
  refine .of_ink (reveals_colored palette hescape) ?_ ?_
  · rw [toList_colored_append, colored, colored, String.append_empty]
    exact (hlast.endsInInk_paintSpan palette).append_left _
  · rw [toList_plainText_append, plainText, plainText, String.append_empty]
    exact hlast.endsInInk.append_left _

theorem escape_not_mem_emphasize {spans : List Span} (h : ∀ s ∈ spans, '\x1b' ∉ s.text.toList) :
    ∀ s ∈ emphasize spans, '\x1b' ∉ s.text.toList := by
  rw [emphasize, List.forall_mem_map]
  exact h

end Span

theorem Name.isWord (x : Name) : Span.IsWord { text := x.toString, cls := .name } where
  ne_nil := by
    rw [toString, String.toList_ofList]
    exact List.cons_ne_nil _ _
  space_not_mem := by
    intro hmem
    exact absurd (x.isNameChar_of_mem hmem) (by decide)
  escape_not_mem := by
    intro hmem
    exact absurd (x.isNameChar_of_mem hmem) (by decide)

theorem Symbol.isWord (st : Style) (s : Symbol) : (s.span st).IsWord := by
  rw [Symbol.span]
  cases st.unicode <;> cases s <;> exact ⟨by decide, by decide, by decide⟩

theorem Formula.isWord_format (st : Style) (p : Formula) : ∀ s ∈ p.format st, s.IsWord :=
  p.forall_mem_format Name.isWord fun s _ _ => s.isWord st

theorem Formula.format_ne_nil (st : Style) (p : Formula) : p.format st ≠ [] := by
  cases p with
  | falsity => exact List.cons_ne_nil _ _
  | var x => exact List.cons_ne_nil _ _
  | bin c l r =>
      rw [format]
      split
      · exact List.cons_ne_nil _ _
      · exact List.append_ne_nil_of_right_ne_nil _ (List.cons_ne_nil _ _)

namespace Sequent

theorem escape_not_mem_formatHyps (st : Style) (hs : List Formula) :
    ∀ s ∈ formatHyps st hs, '\x1b' ∉ s.text.toList := by
  have hformula : ∀ h : Formula, ∀ s ∈ h.format st, '\x1b' ∉ s.text.toList :=
    fun h s hs => (h.isWord_format st s hs).escape_not_mem
  have hblank : '\x1b' ∉ blankSpan.text.toList := by decide
  fun_induction formatHyps st hs with
  | case1 => simp
  | case2 h =>
      rw [List.forall_mem_append, List.forall_mem_singleton]
      exact ⟨hformula h, hblank⟩
  | case3 h hs _ ih =>
      rw [List.forall_mem_append, List.forall_mem_cons, List.forall_mem_cons]
      exact ⟨hformula h, (Symbol.isWord st .comma).escape_not_mem, hblank, ih⟩

/-- The text of a sequent ends in the words of its conclusion. -/
theorem exists_format_eq (st : Style) (emphasis : Bool) (s : Sequent) :
    ∃ front words, s.format st emphasis = front ++ words ∧
      (∀ t ∈ front, '\x1b' ∉ t.text.toList) ∧ words ≠ [] ∧ ∀ t ∈ words, t.IsWord := by
  have hwords := s.concl.isWord_format st
  have hne := s.concl.format_ne_nil st
  refine ⟨formatHyps st s.hyps ++ [Symbol.turnstile.span st, blankSpan],
    if emphasis then Span.emphasize (s.concl.format st) else s.concl.format st, ?_, ?_, ?_, ?_⟩
  · rw [format, List.append_assoc]
    rfl
  · rw [List.forall_mem_append, List.forall_mem_cons, List.forall_mem_singleton]
    exact ⟨escape_not_mem_formatHyps st s.hyps, (Symbol.isWord st .turnstile).escape_not_mem,
      by decide⟩
  · split
    · rwa [Span.emphasize, ne_eq, List.map_eq_nil_iff]
    · exact hne
  · split
    · rw [Span.emphasize, List.forall_mem_map]
      exact fun t ht => (hwords t ht).emphasize
    · exact hwords

theorem escape_not_mem_format (st : Style) (emphasis : Bool) (s : Sequent) :
    ∀ t ∈ s.format st emphasis, '\x1b' ∉ t.text.toList := by
  obtain ⟨front, words, htext, hfront, -, hwords⟩ := s.exists_format_eq st emphasis
  rw [htext, List.forall_mem_append]
  exact ⟨hfront, fun t ht => (hwords t ht).escape_not_mem⟩

end Sequent

/-! ## Drawings -/

/-- The pieces of which drawings are made. -/
inductive Piece.IsDrawn (st : Style) : Piece → Prop where
  | blank (n : Int) : IsDrawn st (.blank n)
  | line (n : Int) : IsDrawn st (.line n)
  | label (k : Rule) : IsDrawn st (.label (k.label st.unicode))
  | sequent (s : Sequent) (emphasis : Bool) : IsDrawn st (.sequent (s.format st emphasis))

theorem Rule.escape_not_mem_label (unicode : Bool) (k : Rule) :
    '\x1b' ∉ (k.label unicode).toList := by
  cases unicode <;> cases k <;> decide

namespace Piece

variable {st : Style} (palette : Palette)

theorem escape_not_mem_repeated {c : Char} (h : c ≠ '\x1b') (n : Int) :
    '\x1b' ∉ (repeated c n).toList := by
  rw [repeated, String.toList_ofList]
  exact fun hmem => h (List.eq_of_mem_replicate hmem).symm

theorem IsDrawn.repaints {p : Piece} (h : p.IsDrawn st) :
    Repaints (p.paint (colored palette)).toList (p.paint Painter.plain).toList := by
  cases h with
  | blank n => exact .bare (escape_not_mem_repeated (by decide) n)
  | line n => exact .bare (escape_not_mem_repeated (by decide) n)
  | label k => exact .bare (k.escape_not_mem_label st.unicode)
  | sequent s emphasis =>
      obtain ⟨front, words, htext, hfront, hne, hwords⟩ := s.exists_format_eq st emphasis
      rw [htext]
      exact Span.repaints_colored palette hfront hne hwords

theorem repaints_paintRow {ps : List Piece} (h : ∀ p ∈ ps, p.IsDrawn st) :
    Repaints (paintRow (colored palette) ps).toList (paintRow Painter.plain ps).toList := by
  induction ps with
  | nil => exact .bare List.not_mem_nil
  | cons p ps ih =>
      rw [List.forall_mem_cons] at h
      rw [paintRow, paintRow, String.toList_append, String.toList_append]
      exact (h.1.repaints palette).append (ih h.2)

end Piece

namespace Picture

open Box

variable {st : Style} {marked : Option Path}

theorem isDrawn_bottom (path : Path) (d : Derivation) :
    ∀ p ∈ row 0 (ofDerivation st marked path d), p.IsDrawn st := by
  rw [row_zero, spans_ofDerivation]
  simp only [List.forall_mem_cons]
  refine ⟨.blank _, .sequent _ _, .blank _, ?_⟩
  simp

theorem isDrawn_row (path : Path) (d : Derivation) (n : Nat) :
    ∀ p ∈ row n (ofDerivation st marked path d), p.IsDrawn st := by
  induction d using Derivation.inductOn generalizing path n with
  | goal s =>
      cases n with
      | zero => exact isDrawn_bottom path _
      | succ n =>
          rw [row_of_label_none (label_ofDerivation path _), List.forall_mem_singleton]
          exact .blank _
  | node s k ds ih =>
      have hlabel : (ofDerivation st marked path (.node s k ds)).label =
          some (k.label st.unicode) := label_ofDerivation path _
      cases n using Nat.twoStepInduction with
      | zero => exact isDrawn_bottom path _
      | one =>
          rw [row_one hlabel]
          simp only [List.forall_mem_cons]
          refine ⟨.blank _, .line _, .label k, .blank _, ?_⟩
          simp
      | more n _ _ =>
          rw [row_add_two hlabel, List.forall_mem_cons, List.forall_mem_append,
            List.forall_mem_singleton, upper_ofDerivation]
          refine ⟨.blank _, forall_mem_rowAcross (.blank _) ?_, .blank _⟩
          exact forall_mem_ofPremises_of_forall (fun d hd path => ih d hd path n) path 0

theorem reveals_unlines {ls ms : List String}
    (h : List.Forall₂ (fun l m => Reveals l.toList m.toList) ls ms) :
    Reveals (unlines ls).toList (unlines ms).toList := by
  induction h with
  | nil => exact .nil
  | cons h _ ih =>
      simp only [unlines, String.toList_append]
      exact (h.append (.bare (by decide))).append ih

theorem reveals_draw (palette : Palette) (st : Style) (emphasis : Bool) (d : Derivation) :
    Reveals (draw { style := st, painter := colored palette, emphasis := emphasis } d).toList
      (draw { style := st, emphasis := emphasis } d).toList := by
  rw [draw, draw, lines, lines, rows, rows, List.map_map, List.map_map, List.map_map, List.map_map]
  apply reveals_unlines
  rw [List.forall₂_map_left_iff, List.forall₂_map_right_iff]
  refine List.forall₂_same.mpr fun n _ => ?_
  simp only [Function.comp_apply, toList_trimLine]
  exact (Piece.repaints_paintRow palette (isDrawn_row [] d n)).trimmed

/-- **Colours do not change a drawing.**  With any codes, a coloured drawing without its
escape sequences is the same, to the ends of its lines, as the one without colours, whether
the next goal is emphasized or not.  The same is true of every printed formula and of every
printed sequent, emphasized or not. -/
theorem withoutEscapes_colored (palette : Palette) (st : Style) (emphasis : Bool) :
    (∀ d : Derivation,
      withoutEscapes
          (draw { style := st, painter := colored palette, emphasis := emphasis } d).toList =
        (draw { style := st, emphasis := emphasis } d).toList) ∧
    (∀ p : Formula,
      withoutEscapes (colored palette (p.format st)).toList = (p.print st).toList ∧
      withoutEscapes (colored palette (Span.emphasize (p.format st))).toList =
        (p.print st).toList) ∧
    ∀ s : Sequent,
      withoutEscapes (colored palette (s.format st emphasis)).toList = (s.print st).toList ∧
      withoutEscapes (colored palette (Span.emphasize (s.format st emphasis))).toList =
        (s.print st).toList := by
  have hformula : ∀ p : Formula, ∀ t ∈ p.format st, '\x1b' ∉ t.text.toList :=
    fun p t ht => (p.isWord_format st t ht).escape_not_mem
  have hsequent := fun s : Sequent => s.escape_not_mem_format st emphasis
  refine ⟨?_, ?_, ?_⟩
  · intro d
    exact (reveals_draw palette st emphasis d).eq
  · intro p
    refine ⟨(reveals_colored palette (hformula p)).eq, ?_⟩
    rw [(reveals_colored palette (Span.escape_not_mem_emphasize (hformula p))).eq,
      Span.plainText_emphasize, Formula.print]
  · intro s
    rw [(reveals_colored palette (hsequent s)).eq,
      (reveals_colored palette (Span.escape_not_mem_emphasize (hsequent s))).eq,
      Span.plainText_emphasize, Sequent.plainText_format]
    exact ⟨rfl, rfl⟩

/-- A goal whose conclusion is a variable with a space at the end of its name.  Without
colours the space is dropped from the end of the line; with them it is not, since an
escape sequence follows it. -/
theorem withoutEscapes_colored_ne_blank_name :
    let d : Derivation String := .goal ⟨[], .var "A "⟩
    withoutEscapes (draw { style := .default, painter := colored .default } d).toList ≠
      (draw { style := .default } d).toList := by
  decide +kernel

end Picture

end Sequitur
