import Mathlib.Data.List.TakeWhile
import Sequitur.Proofs.Derivation.Growth
import Sequitur.Proofs.Picture.Placement

/-!
# Sequitur.Proofs.Picture.Reading

A derivation can be read off its drawing.  The lines of a drawing give the
marks of every row, since blanks at their ends and between the marks can be
told from what is written.  The two lowest rows of boxes side by side give
their sequents and rules (`Spread.roots_eq`), and the number of premises of
each, so that the premises, read off the rows above, fall into place
(`eq_of_marks_eq`).
-/

namespace Sequitur

open Box Placed

/-! ## Sequents and rules -/

/-- What is written at the bottom of a box: its sequent and its label. -/
def Box.root (b : Box) : String × Option String := (Span.plainText b.text, b.label)

/-- A label can be told from the line before it. -/
theorem label_eq_of_line_eq {m n : Nat} {l l' : String} (hl : '─' ∉ l.toList)
    (hl' : '─' ∉ l'.toList)
    (h : List.replicate m '─' ++ l.toList = List.replicate n '─' ++ l'.toList) : l = l' := by
  have hlabel : ∀ {k : Nat} {t : List Char}, '─' ∉ t →
      (List.replicate k '─' ++ t).filter (· ≠ '─') = t := by
    intro k t ht
    rw [List.filter_append, List.filter_replicate, if_neg (by simp), List.nil_append,
      List.filter_eq_self]
    intro c hc
    exact decide_eq_true fun heq => ht (heq ▸ hc)
  have hfilter := congrArg (List.filter (· ≠ '─')) h
  rw [hlabel hl, hlabel hl'] at hfilter
  exact String.ext hfilter

theorem Placed.root_eq {p q : Placed} (hp : p.box.Measured) (hq : q.box.Measured)
    (hsequent : p.sequent = q.sequent) (hline : p.line? = q.line?) : p.box.root = q.box.root := by
  have htext : Span.plainText p.box.text = Span.plainText q.box.text :=
    String.ext (InkMark.mk.inj hsequent).2
  have hlabel : p.box.label = q.box.label := by
    rw [line?, line?] at hline
    cases hl : p.box.label with
    | none =>
        cases hl' : q.box.label with
        | none => rfl
        | some l' => rw [hl, hl'] at hline; cases hline
    | some l =>
        cases hl' : q.box.label with
        | none => rw [hl, hl'] at hline; cases hline
        | some l' =>
            rw [hl, hl', Option.map_some, Option.map_some, Option.some.injEq] at hline
            have hchars : '─' ∉ l.toList := fun hc => (hp.label hl '─' hc).2 rfl
            have hchars' : '─' ∉ l'.toList := fun hc => (hq.label hl' '─' hc).2 rfl
            rw [label_eq_of_line_eq hchars hchars' (InkMark.mk.inj hline).2]
  rw [Box.root, Box.root, htext, hlabel]

namespace Spread

variable {F G : List Placed} {p q : Placed}

/-- A line starts no further right than the sequent below it, so it is not the
line of a box on the right. -/
theorem line_not_mem_tail (hF : Spread (p :: F)) (hq : q.box.Measured)
    (hsequent : p.sequent = q.sequent) {m : InkMark} (hm : q.line? = some m) : m ∉ marks 1 F := by
  intro hmem
  obtain ⟨hp, htail⟩ := List.forall_mem_cons.mp hF.measured
  obtain ⟨r, hr, hmr⟩ := List.mem_filterMap.mp hmem
  have happart : p.stop + premiseGap ≤ r.column := List.rel_of_pairwise_cons hF.apart hr
  have hright := (holds_line (htail r hr).fits hmr).1
  have hbottom := (holds_sequent hp.fits).2
  have hleft : m.column ≤ q.sequent.column := by
    obtain ⟨l, _, rfl⟩ := Option.map_eq_some_iff.mp hm
    have := hq.fits.lineStart_le
    simp only [sequent]
    omega
  rw [← hsequent] at hleft
  rw [InkMark.stop] at hbottom
  rw [premiseGap] at happart
  omega

/-- Where the leftmost sequents are the same, so are their lines. -/
theorem lines_eq (hF : Spread (p :: F)) (hG : Spread (q :: G)) (hsequent : p.sequent = q.sequent)
    (h : marks 1 (p :: F) = marks 1 (q :: G)) : p.line? = q.line? ∧ marks 1 F = marks 1 G := by
  have hp := hF.measured p List.mem_cons_self
  have hq := hG.measured q List.mem_cons_self
  simp only [marks] at h ⊢
  -- a line on one side only would be the line of a box further right on the other
  cases hm : p.line? with
  | none =>
      cases hn : q.line? with
      | none => exact ⟨rfl, by rwa [List.filterMap_cons_none hm, List.filterMap_cons_none hn] at h⟩
      | some n =>
          rw [List.filterMap_cons_none hm, List.filterMap_cons_some hn] at h
          have hmem : n ∈ F.filterMap line? := h ▸ List.mem_cons_self
          exact absurd hmem (hF.line_not_mem_tail hq hsequent hn)
  | some m =>
      cases hn : q.line? with
      | none =>
          rw [List.filterMap_cons_some hm, List.filterMap_cons_none hn] at h
          have hmem : m ∈ G.filterMap line? := h ▸ List.mem_cons_self
          exact absurd hmem (hG.line_not_mem_tail hp hsequent.symm hm)
      | some n =>
          rw [List.filterMap_cons_some hm, List.filterMap_cons_some hn, List.cons.injEq] at h
          exact ⟨congrArg some h.1, h.2⟩

/-- **Sequents and rules can be read off the two lowest rows.** -/
theorem roots_eq (hF : Spread F) (hG : Spread G) (hsequents : marks 0 F = marks 0 G)
    (hlines : marks 1 F = marks 1 G) :
    (F.map Placed.box).map Box.root = (G.map Placed.box).map Box.root := by
  induction F generalizing G with
  | nil =>
      cases G with
      | nil => rfl
      | cons q G => cases hsequents
  | cons p F ih =>
      cases G with
      | nil => cases hsequents
      | cons q G =>
          obtain ⟨hsequent, hrest⟩ := List.cons.inj hsequents
          obtain ⟨hline, hlines⟩ := hF.lines_eq hG hsequent hlines
          have hroot := Placed.root_eq (hF.measured p List.mem_cons_self)
            (hG.measured q List.mem_cons_self) hsequent hline
          simp only [List.map_cons, hroot, ih hF.tail hG.tail hrest hlines]

end Spread

/-! ## Trees -/

namespace Derivation

/-- A derivation is its sequent, its rule and its premises. -/
theorem ext_parts {d e : Derivation} (hsequent : d.sequent = e.sequent) (hrule : d.rule? = e.rule?)
    (hpremises : d.premises = e.premises) : d = e := by
  cases d <;> cases e <;> simp_all [sequent, rule?, premises]

/-- The rule says how many premises there are. -/
theorem WellFormed.length_premises_eq {d e : Derivation} (hd : d.WellFormed) (he : e.WellFormed)
    (hrule : d.rule? = e.rule?) : d.premises.length = e.premises.length := by
  cases d with
  | goal s =>
      cases e with
      | goal t => rfl
      | node t k es => cases hrule
  | node s k ds =>
      cases e with
      | goal t => cases hrule
      | node t k' es =>
          obtain rfl : k = k' := Option.some.inj hrule
          exact hd.length_premises.trans he.length_premises.symm

theorem wellFormed_premises {ds : List Derivation} (h : ∀ d ∈ ds, d.WellFormed) :
    ∀ e ∈ ds.flatMap premises, e.WellFormed := by
  intro e he
  obtain ⟨d, hd, he⟩ := List.mem_flatMap.mp he
  cases h d hd with
  | goal s => exact absurd he List.not_mem_nil
  | node s r k ds _ hds => exact hds e he

end Derivation

namespace Picture

theorem upper_box (st : Style) (d : Derivation) :
    (box { style := st } d).upper = d.premises.map (box { style := st }) := by
  rw [← ofPremises_none fun d _ path => ofDerivation_none st path d]
  exact upper_ofDerivation [] d

theorem root_box (st : Style) (d : Derivation) :
    (box { style := st } d).root = (d.sequent.print st, d.rule?.map (Rule.label st.unicode)) :=
  Prod.ext (text_ofDerivation [] d) (label_ofDerivation [] d)

/-- What is written at the bottom of a drawing gives the sequent and the rule. -/
theorem eq_of_root_eq {st : Style} {d e : Derivation}
    (h : (box { style := st } d).root = (box { style := st } e).root) :
    d.sequent = e.sequent ∧ d.rule? = e.rule? := by
  rw [root_box, root_box, Prod.mk.injEq] at h
  refine ⟨Sequent.print_injective st h.1, ?_⟩
  exact Option.map_injective (fun _ _ => Rule.label_injective st.unicode) h.2

/-- Derivations with the same roots and, one after the other, the same
premises are the same: the roots say which premises belong to which. -/
theorem eq_of_roots_eq {st : Style} {ds es : List Derivation} (hds : ∀ d ∈ ds, d.WellFormed)
    (hes : ∀ e ∈ es, e.WellFormed)
    (hroots : (ds.map (box { style := st })).map Box.root =
      (es.map (box { style := st })).map Box.root)
    (hpremises : ds.flatMap Derivation.premises = es.flatMap Derivation.premises) : ds = es := by
  induction ds generalizing es with
  | nil =>
      cases es with
      | nil => rfl
      | cons e es => cases hroots
  | cons d ds ih =>
      cases es with
      | nil => cases hroots
      | cons e es =>
          rw [List.forall_mem_cons] at hds hes
          obtain ⟨hroot, hroots⟩ := List.cons.inj hroots
          obtain ⟨hsequent, hrule⟩ := eq_of_root_eq hroot
          rw [List.flatMap_cons, List.flatMap_cons] at hpremises
          obtain ⟨hhead, htail⟩ :=
            List.append_inj hpremises (hds.1.length_premises_eq hes.1 hrule)
          rw [Derivation.ext_parts hsequent hrule hhead, ih hds.2 hes.2 hroots htail]

theorem map_box_premises {st : Style} {F : List Placed} {ds : List Derivation}
    (h : F.map Placed.box = ds.map (box { style := st })) :
    (F.flatMap Placed.premises).map Placed.box =
      (ds.flatMap Derivation.premises).map (box { style := st }) := by
  have hupper : (F.flatMap Placed.premises).map Placed.box =
      (F.map Placed.box).flatMap Box.upper := by
    rw [List.map_flatMap, List.flatMap_map]
    exact List.flatMap_congr fun p _ => map_box_across _ _
  rw [hupper, h, List.flatMap_map, List.map_flatMap]
  exact List.flatMap_congr fun d _ => upper_box st d

/-- **Derivations side by side can be read off their marks.**  The induction is
on the height of the boxes: the premises are two rows lower. -/
theorem eq_of_marks_eq {st : Style} (n : Nat) {ds es : List Derivation} {F G : List Placed}
    (hF : Spread F) (hG : Spread G) (hdsF : F.map Placed.box = ds.map (box { style := st }))
    (hesG : G.map Placed.box = es.map (box { style := st })) (hds : ∀ d ∈ ds, d.WellFormed)
    (hes : ∀ e ∈ es, e.WellFormed) (hheight : ∀ p ∈ F, p.box.height ≤ n)
    (h : ∀ n, marks n F = marks n G) : ds = es := by
  induction n generalizing ds es F G with
  | zero =>
      have hF0 : marks 0 F = [] := hF.marks_eq_nil hheight
      have hG0 : marks 0 G = [] := (h 0).symm.trans hF0
      rw [marks, List.map_eq_nil_iff] at hF0 hG0
      subst hF0 hG0
      rw [List.map_eq_nil_iff.mp hdsF.symm, List.map_eq_nil_iff.mp hesG.symm]
  | succ n ih =>
      have hroots := hF.roots_eq hG (h 0) (h 1)
      rw [hdsF, hesG] at hroots
      refine eq_of_roots_eq hds hes hroots ?_
      refine ih hF.premises hG.premises (map_box_premises hdsF) (map_box_premises hesG) ?_ ?_ ?_
        fun n => h (n + 2)
      · exact Derivation.wellFormed_premises hds
      · exact Derivation.wellFormed_premises hes
      · intro q hq
        obtain ⟨p, hp, hq⟩ := List.mem_flatMap.mp hq
        have hmeasured := hF.measured p hp
        have hupper := hmeasured.height_upper (mem_premises hmeasured hq).1
        have hle := hheight p hp
        omega

/-! ## Lines -/

theorem toList_unlines_cons (l : String) (ls : List String) :
    (unlines (l :: ls)).toList = l.toList ++ '\n' :: (unlines ls).toList := by
  simp [unlines]

/-- The first line ends before the first newline. -/
theorem takeWhile_unlines {l : String} (hl : '\n' ∉ l.toList) (ls : List String) :
    (unlines (l :: ls)).toList.takeWhile (· ≠ '\n') = l.toList := by
  have hpos : ∀ c ∈ l.toList, decide (c ≠ '\n') = true := by
    intro c hc
    exact decide_eq_true fun heq => hl (heq ▸ hc)
  rw [toList_unlines_cons, List.takeWhile_append_of_pos hpos, List.takeWhile_cons_of_neg (by simp),
    List.append_nil]

/-- Lines can be told apart by the newlines behind them. -/
theorem unlines_injective {ls ms : List String} (hls : ∀ l ∈ ls, '\n' ∉ l.toList)
    (hms : ∀ m ∈ ms, '\n' ∉ m.toList) (h : unlines ls = unlines ms) : ls = ms := by
  have hnil : ∀ (l : String) (ls : List String), unlines (l :: ls) ≠ unlines [] := by
    intro l ls heq
    have hlist := congrArg String.toList heq
    rw [toList_unlines_cons] at hlist
    simp [unlines] at hlist
  induction ls generalizing ms with
  | nil =>
      cases ms with
      | nil => rfl
      | cons m ms => exact absurd h.symm (hnil m ms)
  | cons l ls ih =>
      cases ms with
      | nil => exact absurd h (hnil l ls)
      | cons m ms =>
          rw [List.forall_mem_cons] at hls hms
          have hfirst : l = m := by
            apply String.ext
            rw [← takeWhile_unlines hls.1 ls, h, takeWhile_unlines hms.1 ms]
          have hlist := congrArg String.toList h
          rw [toList_unlines_cons, toList_unlines_cons, hfirst, List.append_cancel_left_eq,
            List.cons.injEq] at hlist
          rw [hfirst, ih hls.2 hms.2 (String.ext hlist.2)]

/-- Only blanks are dropped at the end of a line. -/
theorem toList_eq_trimLine_append (line : String) :
    ∃ blanks : List Char, (∀ c ∈ blanks, c = ' ') ∧
      line.toList = (trimLine line).toList ++ blanks := by
  refine ⟨(line.toList.reverse.takeWhile (· = ' ')).reverse, ?_, ?_⟩
  · intro c hc
    have hspace := List.mem_takeWhile_imp (List.mem_reverse.mp hc)
    exact of_decide_eq_true hspace
  · rw [trimLine, String.toList_ofList, ← List.reverse_append, List.takeWhile_append_dropWhile,
      List.reverse_reverse]

theorem ink_trimLine (x : Int) (line : String) :
    ink x (trimLine line).toList = ink x line.toList := by
  obtain ⟨blanks, hblanks, hline⟩ := toList_eq_trimLine_append line
  rw [hline, ink_append, ink_of_blank hblanks, List.append_nil]

/-- A line of a drawing, the lowest being line 0. -/
def lineAt (st : Style) (d : Derivation) (n : Nat) : String :=
  trimLine (Piece.paintRow Painter.plain ((box { style := st } d).row n))

theorem draw_eq_unlines (st : Style) (d : Derivation) :
    draw { style := st } d =
      unlines ((List.range (box { style := st } d).height).reverse.map (lineAt st d)) := by
  rw [draw, lines, rows, List.map_map, List.map_map]
  rfl

/-- The marks of a row, as they stand in a drawing. -/
def marksAt (st : Style) (d : Derivation) (n : Nat) : List InkMark :=
  marks n [⟨0, box { style := st } d⟩]

theorem spread_box (st : Style) (d : Derivation) : Spread [⟨0, box { style := st } d⟩] :=
  .singleton (measured_box _ d) 0

theorem ink_lineAt (st : Style) (d : Derivation) (n : Nat) :
    ink 0 (lineAt st d n).toList = (marksAt st d n).flatMap InkMark.ink := by
  rw [lineAt, ink_trimLine, ((measured_box _ d).shows_row n 0).ink_eq, marksAt]

/-- There is no newline within a line. -/
theorem newline_not_mem_lineAt (st : Style) (d : Derivation) (n : Nat) :
    '\n' ∉ (lineAt st d n).toList := by
  intro hmem
  obtain ⟨y, hy⟩ := exists_mem_ink hmem (by decide) 0
  rw [ink_lineAt, List.mem_flatMap] at hy
  obtain ⟨m, hm, hy⟩ := hy
  have hsolid := (spread_box st d).solid_marks n m hm
  have hspace := hsolid.eq_space_of_isBlankChar (mem_of_mem_ink hy).1 (by decide)
  exact absurd hspace (by decide)

/-- **The marks of every row can be read off a drawing.** -/
theorem marksAt_eq_of_draw_eq {st : Style} {d e : Derivation}
    (h : draw { style := st } d = draw { style := st } e) (n : Nat) :
    marksAt st d n = marksAt st e n := by
  have hnewline : ∀ (d : Derivation) (ns : List Nat), ∀ l ∈ ns.map (lineAt st d),
      '\n' ∉ l.toList := by
    intro d ns l hl
    obtain ⟨n, -, rfl⟩ := List.mem_map.mp hl
    exact newline_not_mem_lineAt st d n
  rw [draw_eq_unlines, draw_eq_unlines] at h
  have hlines := unlines_injective (hnewline d _) (hnewline e _) h
  have hheight : (box { style := st } d).height = (box { style := st } e).height := by
    simpa using congrArg List.length hlines
  rw [hheight, List.map_inj_left] at hlines
  by_cases hn : n < (box { style := st } e).height
  · have hline := hlines n (List.mem_reverse.mpr (List.mem_range.mpr hn))
    apply marks_eq_of_ink_eq
    · exact (spread_box st d).solid_marks n
    · exact (spread_box st e).solid_marks n
    · exact (spread_box st d).pairwise_marks n
    · exact (spread_box st e).pairwise_marks n
    · have hink := ink_lineAt st d n
      rw [hline, ink_lineAt] at hink
      exact hink.symm
  · have habove : ∀ d : Derivation, (box { style := st } d).height ≤ n → marksAt st d n = [] := by
      intro d hd
      exact (spread_box st d).marks_eq_nil (by simpa using hd)
    rw [habove d (by omega), habove e (by omega)]

/-- **A drawing determines the derivation.**  Derivations that are made by
applying rules, from whatever goals, and drawn in one style look the same
only if they are the same. -/
theorem draw_injective (st : Style) (s t : Sequent) (as bs : List Derivation.Action)
    (h : draw { style := st } ((Derivation.goal s).run as) =
      draw { style := st } ((Derivation.goal t).run bs)) :
    (Derivation.goal s).run as = (Derivation.goal t).run bs := by
  have hwf : ∀ (s : Sequent) (as : List Derivation.Action),
      ((Derivation.goal s).run as).WellFormed :=
    fun s as => Derivation.wellFormed_run (.goal s) as
  have hsame := eq_of_marks_eq _ (spread_box st _) (spread_box st _) rfl rfl
    (List.forall_mem_singleton.mpr (hwf s as)) (List.forall_mem_singleton.mpr (hwf t bs))
    (List.forall_mem_singleton.mpr (Nat.le_refl _)) (marksAt_eq_of_draw_eq h)
  exact List.singleton_inj.mp hsame

/-- The parts of a conjunction may be proved in either order, and a rule that
does not fit leaves no trace. -/
theorem draw_injective_conj :
    let A : Formula := .var ⟨⟨'A', rfl⟩, []⟩
    let B : Formula := .var ⟨⟨'B', rfl⟩, []⟩
    let s : Sequent := ⟨[A, B], .conj B A⟩
    let as : List Derivation.Action := [.proveNext Request.conjIntro.call,
      .applyAt [1] Request.hypothesis.call, .proveNext Request.hypothesis.call]
    let bs : List Derivation.Action := [.applyAt [] Request.conjIntro.call,
      .applyAt [] Request.exfalso.call, .proveNext Request.hypothesis.call,
      .applyAt [1] Request.hypothesis.call]
    draw { style := .default } ((Derivation.goal s).run as) =
        draw { style := .default } ((Derivation.goal s).run bs) ∧
      (Derivation.goal s).run as = (Derivation.goal s).run bs := by
  intro A B s as bs
  have hdraw : draw { style := .default } ((Derivation.goal s).run as) =
      draw { style := .default } ((Derivation.goal s).run bs) := by decide +kernel
  exact ⟨hdraw, draw_injective .default s s as bs hdraw⟩

end Picture

end Sequitur
