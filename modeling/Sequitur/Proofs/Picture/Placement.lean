import Mathlib.Data.List.Nodup
import Sequitur.Picture.Paint
import Sequitur.Proofs.Derivation.Reachable
import Sequitur.Proofs.Picture.Ink
import Sequitur.Proofs.Sequent.RoundTrip

/-!
# Sequitur.Proofs.Picture.Placement

Where everything in a drawing stands.  A box at a column holds its sequent,
its inference line and the boxes of its premises, each at a column of its own,
and nothing sticks out (`Fits`).  Boxes that stand side by side have a gap
between them, and so have all the boxes above them.

* `marks n F` are the marks on row `n` of the boxes `F`: on row 0 the
  sequents, on row 1 the inference lines with their labels, and above that
  the marks of the premises, two rows down.
* `Measured.shows_row`: a row of a box shows these marks, blanks apart.
* `Spread.pairwise_marks`: the marks of a row stand apart.
-/

namespace Sequitur

namespace Box

/-! ## Measured boxes -/

/-- Boxes as they are measured, from the leaves to the root.  Their texts are
solid; a label is a word, and stands out against the line before it. -/
inductive Measured : Box → Prop where
  | goal {text : List Span} (htext : Solid (Span.plainText text).toList) :
      Measured (ofGoal text)
  | rule {text : List Span} {label : String} {upper : List Box}
      (htext : Solid (Span.plainText text).toList)
      (hlabel : ∀ c ∈ label.toList, isBlankChar c = false ∧ c ≠ '─')
      (hupper : ∀ b ∈ upper, Measured b) :
      Measured (ofRule text label upper)

/-- Nothing sticks out of a box, and the inference line is no shorter than the
sequent below it. -/
structure Fits (b : Box) : Prop where
  bottomWidth_eq : b.bottomWidth = columns b.text
  bottomX_nonneg : 0 ≤ b.bottomX
  bottom_le : b.bottomX + b.bottomWidth ≤ b.width
  lineStart_nonneg : 0 ≤ b.lineStart
  lineStart_le : b.lineStart ≤ b.bottomX
  le_lineEnd : b.bottomX + b.bottomWidth ≤ b.lineEnd
  lineEnd_le : ∀ {l}, b.label = some l → b.lineEnd + l.length ≤ b.width
  upper_nonneg : 0 ≤ b.center - upperLeft b.upper
  upper_le : b.center + upperRight b.upper ≤ b.width

theorem columns_nonneg (text : List Span) : 0 ≤ columns text := Int.natCast_nonneg _

theorem Fits.width_nonneg {b : Box} (h : b.Fits) : 0 ≤ b.width := by
  have hbottom := h.bottomWidth_eq ▸ columns_nonneg b.text
  have hx := h.bottomX_nonneg
  have hle := h.bottom_le
  omega

/-- The sequents of boxes side by side lie within the row. -/
theorem span_bounds {bs : List Box} (h : ∀ b ∈ bs, b.Fits) :
    0 ≤ spanX bs ∧ spanX bs ≤ spanEnd bs ∧ spanEnd bs ≤ rowWidth bs := by
  induction bs with
  | nil => simp [spanX, spanEnd, rowWidth]
  | cons b bs ih =>
      obtain ⟨hb, hbs⟩ := List.forall_mem_cons.mp h
      have hrest := ih hbs
      have hx := hb.bottomX_nonneg
      have hle := hb.bottom_le
      have hbottom := hb.bottomWidth_eq ▸ columns_nonneg b.text
      cases bs with
      | nil =>
          simp only [spanX, spanEnd, rowWidth]
          omega
      | cons b' bs =>
          simp only [spanX, spanEnd, rowWidth, premiseGap] at hrest ⊢
          omega

theorem fits_ofGoal (text : List Span) : (ofGoal text).Fits := by
  have hcolumns := columns_nonneg text
  constructor <;>
    simp [ofGoal, bottomX, bottomWidth, width, center, lineStart, lineEnd, measures, Box.text,
      label, upper, upperLeft, upperRight, spanX, spanWidth, spanEnd, rowWidth, leftHalf,
      rightHalf] <;>
    omega

theorem fits_ofRule {upper : List Box} (h : ∀ b ∈ upper, b.Fits) (text : List Span)
    (label : String) : (ofRule text label upper).Fits := by
  have hcolumns := columns_nonneg text
  obtain ⟨hx, hle, hwidth⟩ := span_bounds h
  constructor <;>
    simp [ofRule, bottomX, bottomWidth, width, center, lineStart, lineEnd, measures, Box.text,
      Box.label, Box.upper, upperLeft, upperRight, spanWidth, leftHalf, rightHalf] <;>
    omega

theorem Measured.fits {b : Box} (h : b.Measured) : b.Fits := by
  induction h with
  | goal _ => exact fits_ofGoal _
  | rule _ _ _ ih => exact fits_ofRule ih _ _

theorem Measured.solid {b : Box} (h : b.Measured) : Solid (Span.plainText b.text).toList := by
  cases h with
  | goal htext => exact htext
  | rule htext _ _ => exact htext

theorem Measured.upper {b : Box} (h : b.Measured) : ∀ c ∈ b.upper, c.Measured := by
  cases h with
  | goal _ => simp [ofGoal, Box.upper]
  | rule _ _ hupper => exact hupper

theorem Measured.label {b : Box} (h : b.Measured) {l : String} (hl : b.label = some l) :
    ∀ c ∈ l.toList, isBlankChar c = false ∧ c ≠ '─' := by
  cases h with
  | goal _ => cases hl
  | rule _ hlabel _ =>
      cases hl
      exact hlabel

/-! ## Rows -/

theorem row_zero (b : Box) :
    row 0 b =
      [.blank b.bottomX, .sequent b.text, .blank (b.width - b.bottomX - b.bottomWidth)] := by
  obtain ⟨text, label, m, upper⟩ := b
  simp [row, Box.text]

theorem row_of_label_none {b : Box} (h : b.label = none) (n : Nat) :
    row (n + 1) b = [.blank b.width] := by
  obtain ⟨text, label, m, upper⟩ := b
  cases h
  simp [row]

theorem row_one {b : Box} {l : String} (h : b.label = some l) :
    row 1 b = [.blank b.lineStart, .line (b.lineEnd - b.lineStart), .label l,
      .blank (b.width - b.lineEnd - l.length)] := by
  obtain ⟨text, label, m, upper⟩ := b
  cases h
  simp [row]

theorem row_add_two {b : Box} {l : String} (h : b.label = some l) (n : Nat) :
    row (n + 2) b = .blank (b.center - upperLeft b.upper) ::
      (rowAcross n b.upper ++ [.blank (b.width - b.center - upperRight b.upper)]) := by
  obtain ⟨text, label, m, upper⟩ := b
  cases h
  simp [row, Box.upper]

/-- Between boxes side by side there are gaps, and nothing else. -/
theorem forall_mem_rowAcross {n : Nat} {bs : List Box} {P : Piece → Prop}
    (hgap : P (.blank premiseGap)) (h : ∀ b ∈ bs, ∀ p ∈ row n b, P p) :
    ∀ p ∈ rowAcross n bs, P p := by
  induction bs with
  | nil => simp [rowAcross]
  | cons b bs ih =>
      obtain ⟨hb, hbs⟩ := List.forall_mem_cons.mp h
      have hbetween : ∀ p ∈ if bs.isEmpty then [] else [Piece.blank premiseGap], P p := by
        split
        · simp
        · simpa using hgap
      rw [rowAcross, List.forall_mem_append, List.forall_mem_append]
      exact ⟨⟨hb, hbetween⟩, ih hbs⟩

end Box

open Box

/-! ## Placed boxes -/

/-- A box that starts at a column. -/
structure Placed where
  column : Int
  box : Box

namespace Placed

/-- The column behind a placed box. -/
def stop (p : Placed) : Int := p.column + p.box.width

/-- Boxes side by side, the first of them at column `x`. -/
def across (x : Int) : List Box → List Placed
  | [] => []
  | b :: bs => ⟨x, b⟩ :: across (x + b.width + premiseGap) bs

/-- The boxes of the premises, where they stand. -/
def premises (p : Placed) : List Placed :=
  across (p.column + (p.box.center - upperLeft p.box.upper)) p.box.upper

/-- The sequent of a placed box. -/
def sequent (p : Placed) : InkMark := ⟨p.column + p.box.bottomX, (Span.plainText p.box.text).toList⟩

/-- The inference line of a placed box, with its label. -/
def line? (p : Placed) : Option InkMark :=
  p.box.label.map fun l =>
    ⟨p.column + p.box.lineStart,
      List.replicate (p.box.lineEnd - p.box.lineStart).toNat '─' ++ l.toList⟩

/-- The marks on a row of placed boxes. -/
def marks : Nat → List Placed → List InkMark
  | 0, F => F.map sequent
  | 1, F => F.filterMap line?
  | n + 2, F => marks n (F.flatMap premises)

@[simp] theorem marks_nil (n : Nat) : marks n [] = [] := by
  induction n using Nat.twoStepInduction with
  | zero => rfl
  | one => rfl
  | more n ih _ => exact ih

theorem marks_append (n : Nat) (F G : List Placed) : marks n (F ++ G) = marks n F ++ marks n G := by
  induction n using Nat.twoStepInduction generalizing F G with
  | zero => exact List.map_append
  | one => exact List.filterMap_append
  | more n ih _ => rw [marks, List.flatMap_append, ih, marks, marks]

theorem marks_cons (n : Nat) (p : Placed) (F : List Placed) :
    marks n (p :: F) = marks n [p] ++ marks n F := marks_append n [p] F

end Placed

open Placed

/-! ## What a row shows -/

/-- Pieces that start at column `x`, take up `width` columns and have the ink
of the marks `ms`. -/
structure Shows (x : Int) (ps : List Piece) (width : Int) (ms : List InkMark) : Prop where
  length_eq : ((Piece.paintRow Painter.plain ps).length : Int) = width
  ink_eq : ink x (Piece.paintRow Painter.plain ps).toList = ms.flatMap InkMark.ink

theorem paintRow_append (painter : Painter) (ps qs : List Piece) :
    Piece.paintRow painter (ps ++ qs) =
      Piece.paintRow painter ps ++ Piece.paintRow painter qs := by
  induction ps with
  | nil => simp [Piece.paintRow]
  | cons p ps ih => rw [List.cons_append, Piece.paintRow, Piece.paintRow, ih, String.append_assoc]

namespace Shows

theorem nil (x : Int) : Shows x [] 0 [] := ⟨rfl, rfl⟩

theorem append {x w v : Int} {ps qs : List Piece} {ms ns : List InkMark} (hp : Shows x ps w ms)
    (hq : Shows (x + w) qs v ns) : Shows x (ps ++ qs) (w + v) (ms ++ ns) := by
  constructor
  · rw [paintRow_append, String.length_append, Int.natCast_add, hp.length_eq, hq.length_eq]
  · rw [paintRow_append, String.toList_append, ink_append, String.length_toList, hp.length_eq,
      hp.ink_eq, hq.ink_eq, List.flatMap_append]

theorem blank {n : Int} (h : 0 ≤ n) (x : Int) : Shows x [.blank n] n [] := by
  have htext : (Piece.paintRow Painter.plain [.blank n]).toList = List.replicate n.toNat ' ' := by
    simp [Piece.paintRow, Piece.paint, repeated]
  constructor
  · rw [← String.length_toList, htext, List.length_replicate, Int.toNat_of_nonneg h]
  · rw [htext]
    exact ink_of_blank (fun c hc => List.eq_of_mem_replicate hc) x

theorem sequent (x : Int) (text : List Span) :
    Shows x [.sequent text] (columns text) [⟨x, (Span.plainText text).toList⟩] := by
  constructor <;> simp [Piece.paintRow, Piece.paint, Painter.plain, columns, InkMark.ink]

theorem line {n : Int} (h : 0 ≤ n) (x : Int) (l : String) :
    Shows x [.line n, .label l] (n + l.length)
      [⟨x, List.replicate n.toNat '─' ++ l.toList⟩] := by
  have htext : (Piece.paintRow Painter.plain [.line n, .label l]).toList =
      List.replicate n.toNat '─' ++ l.toList := by
    simp [Piece.paintRow, Piece.paint, repeated]
  constructor
  · rw [← String.length_toList, htext, List.length_append, List.length_replicate,
      String.length_toList, Int.natCast_add, Int.toNat_of_nonneg h]
  · simp [htext, InkMark.ink]

/-- Pieces between blanks. -/
theorem between {x n w m v : Int} {ps : List Piece} {ms : List InkMark} (hn : 0 ≤ n) (hm : 0 ≤ m)
    (hv : n + (w + m) = v) (h : Shows (x + n) ps w ms) :
    Shows x (.blank n :: (ps ++ [.blank m])) v ms := by
  have hpieces := (blank hn x).append (h.append (blank hm _))
  rwa [List.append_nil, List.nil_append, hv] at hpieces

end Shows

theorem shows_rowAcross {n : Nat} {bs : List Box}
    (h : ∀ b ∈ bs, ∀ x, Shows x (row n b) b.width (marks n [⟨x, b⟩])) (x : Int) :
    Shows x (rowAcross n bs) (rowWidth bs) (marks n (across x bs)) := by
  induction bs generalizing x with
  | nil =>
      rw [rowAcross, rowWidth, across, marks_nil]
      exact .nil x
  | cons b bs ih =>
      obtain ⟨hb, hbs⟩ := List.forall_mem_cons.mp h
      rw [across, marks_cons]
      -- there is a gap behind every box but the last
      cases bs with
      | nil =>
          have hrow := (hb x).append (.nil _)
          simpa [rowAcross, rowWidth, across] using hrow
      | cons b' bs =>
          have hgap : Shows (x + b.width) [.blank premiseGap] premiseGap [] :=
            .blank (by decide) _
          have hrow := ((hb x).append hgap).append (ih hbs _)
          rw [← Int.add_assoc, List.append_nil] at hrow
          rw [rowAcross, rowWidth]
          · simpa using hrow
          · exact List.cons_ne_nil _ _

theorem Box.Fits.shows_sequent {b : Box} (h : b.Fits) (x : Int) :
    Shows x (row 0 b) b.width (marks 0 [⟨x, b⟩]) := by
  have hbottom := h.bottomWidth_eq
  have hle := h.bottom_le
  rw [row_zero]
  exact .between h.bottomX_nonneg (by omega) (by omega) (.sequent _ _)

theorem Box.Fits.shows_line {b : Box} (h : b.Fits) {l : String} (hl : b.label = some l) (x : Int) :
    Shows x (row 1 b) b.width (marks 1 [⟨x, b⟩]) := by
  have hline : 0 ≤ b.lineEnd - b.lineStart := by
    have hbottom := h.bottomWidth_eq ▸ columns_nonneg b.text
    have hstart := h.lineStart_le
    have hend := h.le_lineEnd
    omega
  have hmarks : marks 1 [⟨x, b⟩] = [⟨x + b.lineStart,
      List.replicate (b.lineEnd - b.lineStart).toNat '─' ++ l.toList⟩] := by
    simp [marks, line?, hl]
  have hle := h.lineEnd_le hl
  rw [row_one hl, hmarks]
  exact .between h.lineStart_nonneg (by omega) (by omega) (.line hline _ l)

theorem Box.Fits.shows_upper {b : Box} (h : b.Fits) {l : String} (hl : b.label = some l) {n : Nat}
    (ih : ∀ c ∈ b.upper, ∀ x, Shows x (row n c) c.width (marks n [⟨x, c⟩])) (x : Int) :
    Shows x (row (n + 2) b) b.width (marks (n + 2) [⟨x, b⟩]) := by
  have hmarks : marks (n + 2) [⟨x, b⟩] =
      marks n (across (x + (b.center - upperLeft b.upper)) b.upper) := by
    rw [marks, List.flatMap_singleton, premises]
  have hwidth : upperRight b.upper = rowWidth b.upper - upperLeft b.upper := rfl
  have hle := h.upper_le
  rw [row_add_two hl, hmarks]
  exact .between h.upper_nonneg (by omega) (by omega) (shows_rowAcross ih _)

/-- Nothing stands above a goal. -/
theorem marks_ofGoal (n : Nat) (x : Int) (text : List Span) :
    marks (n + 1) [⟨x, ofGoal text⟩] = [] := by
  cases n with
  | zero => rfl
  | succ n => exact marks_nil n

/-- **A row of a box shows the marks of that row.** -/
theorem Box.Measured.shows_row {b : Box} (h : b.Measured) (n : Nat) (x : Int) :
    Shows x (row n b) b.width (marks n [⟨x, b⟩]) := by
  induction h generalizing n x with
  | @goal text htext =>
      have hfits := fits_ofGoal text
      match n with
      | 0 => exact hfits.shows_sequent x
      | n + 1 =>
          rw [row_of_label_none rfl, marks_ofGoal]
          exact .blank hfits.width_nonneg x
  | @rule text label upper htext hlabel hupper ih =>
      have hfits := fits_ofRule (fun b hb => (hupper b hb).fits) text label
      match n with
      | 0 => exact hfits.shows_sequent x
      | 1 => exact hfits.shows_line rfl x
      | n + 2 => exact hfits.shows_upper rfl (fun c hc => ih c hc n) x

/-! ## Boxes apart -/

namespace Placed

/-- Two placed boxes with a gap between them, the first one on the left. -/
def Apart (p q : Placed) : Prop := p.stop + premiseGap ≤ q.column

/-- A mark that stands within the columns of a placed box. -/
def Holds (p : Placed) (m : InkMark) : Prop := p.column ≤ m.column ∧ m.stop ≤ p.stop

theorem Apart.marks {p q : Placed} (h : p.Apart q) {m n : InkMark} (hm : p.Holds m)
    (hn : q.Holds n) : m.Apart n := by
  have hm := hm.2
  have hn := hn.1
  rw [Apart] at h
  rw [InkMark.Apart]
  omega

theorem holds_sequent {p : Placed} (h : p.box.Fits) : p.Holds p.sequent := by
  have hbottom := h.bottomWidth_eq
  have hx := h.bottomX_nonneg
  have hle := h.bottom_le
  rw [columns, ← String.length_toList] at hbottom
  constructor <;> simp only [sequent, InkMark.stop, stop] <;> omega

theorem holds_line {p : Placed} (h : p.box.Fits) {m : InkMark} (hm : p.line? = some m) :
    p.Holds m := by
  obtain ⟨l, hl, rfl⟩ := Option.map_eq_some_iff.mp hm
  have hbottom := h.bottomWidth_eq ▸ columns_nonneg p.box.text
  have hx := h.lineStart_nonneg
  have hstart := h.lineStart_le
  have hend := h.le_lineEnd
  have hle := h.lineEnd_le hl
  rw [← String.length_toList] at hle
  constructor <;>
    simp only [InkMark.stop, stop, List.length_append, List.length_replicate, Int.natCast_add] <;>
    omega

theorem solid_line {p : Placed} (h : p.box.Measured) {m : InkMark} (hm : p.line? = some m) :
    Solid m.text := by
  obtain ⟨l, hl, rfl⟩ := Option.map_eq_some_iff.mp hm
  refine .word ?_ ?_
  · intro hnil
    have hline := (List.append_eq_nil_iff.mp hnil).1
    have htext := List.length_pos_of_ne_nil h.solid.ne_nil
    have hbottom := h.fits.bottomWidth_eq
    have hstart := h.fits.lineStart_le
    have hend := h.fits.le_lineEnd
    rw [List.replicate_eq_nil_iff] at hline
    rw [columns, ← String.length_toList] at hbottom
    omega
  · intro c hc
    rcases List.mem_append.mp hc with hc | hc
    · rw [List.eq_of_mem_replicate hc]
      decide
    · exact (h.label hl c hc).1

/-- Boxes side by side stand within the row. -/
theorem mem_across {bs : List Box} (h : ∀ b ∈ bs, b.Fits) {x : Int} {q : Placed}
    (hq : q ∈ across x bs) : q.box ∈ bs ∧ x ≤ q.column ∧ q.stop ≤ x + rowWidth bs := by
  induction bs generalizing x with
  | nil => simp [across] at hq
  | cons b bs ih =>
      obtain ⟨hb, hbs⟩ := List.forall_mem_cons.mp h
      have hwidth := hb.width_nonneg
      rw [across, List.mem_cons] at hq
      cases bs with
      | nil =>
          obtain rfl : q = ⟨x, b⟩ := by simpa [across] using hq
          exact ⟨List.mem_cons_self, Int.le_refl _, Int.le_refl _⟩
      | cons b' bs =>
          have hrow : rowWidth (b :: b' :: bs) = b.width + premiseGap + rowWidth (b' :: bs) := rfl
          have hgap : premiseGap = 4 := rfl
          obtain ⟨hspan, hle, hend⟩ := span_bounds hbs
          rcases hq with rfl | hq
          · refine ⟨List.mem_cons_self, Int.le_refl _, ?_⟩
            rw [stop]
            dsimp only
            omega
          · obtain ⟨hmem, hstart, hstop⟩ := ih hbs hq
            exact ⟨List.mem_cons_of_mem _ hmem, by omega, by omega⟩

theorem map_box_across (x : Int) (bs : List Box) : (across x bs).map Placed.box = bs := by
  induction bs generalizing x with
  | nil => rfl
  | cons b bs ih => rw [across, List.map_cons, ih]

theorem pairwise_across {bs : List Box} (h : ∀ b ∈ bs, b.Fits) (x : Int) :
    (across x bs).Pairwise Apart := by
  induction bs generalizing x with
  | nil => exact .nil
  | cons b bs ih =>
      obtain ⟨_, hbs⟩ := List.forall_mem_cons.mp h
      refine .cons ?_ (ih hbs _)
      intro q hq
      exact (mem_across hbs hq).2.1

/-- Premises stand within the box of their conclusion. -/
theorem mem_premises {p q : Placed} (h : p.box.Measured) (hq : q ∈ p.premises) :
    q.box ∈ p.box.upper ∧ p.column ≤ q.column ∧ q.stop ≤ p.stop := by
  obtain ⟨hmem, hstart, hstop⟩ := mem_across (fun b hb => (h.upper b hb).fits) hq
  have hright : upperRight p.box.upper = rowWidth p.box.upper - upperLeft p.box.upper := rfl
  have hx := h.fits.upper_nonneg
  have hle := h.fits.upper_le
  refine ⟨hmem, by omega, ?_⟩
  rw [stop.eq_def p]
  omega

end Placed

/-- Measured boxes that stand side by side, from left to right. -/
structure Spread (F : List Placed) : Prop where
  measured : ∀ p ∈ F, p.box.Measured
  apart : F.Pairwise Apart

namespace Spread

variable {F G : List Placed}

theorem singleton {b : Box} (h : b.Measured) (x : Int) : Spread [⟨x, b⟩] :=
  ⟨by simpa using h, List.pairwise_singleton _ _⟩

theorem tail {p : Placed} (h : Spread (p :: F)) : Spread F :=
  ⟨(List.forall_mem_cons.mp h.measured).2, h.apart.of_cons⟩

/-- The premises of boxes apart are apart. -/
theorem premises (h : Spread F) : Spread (F.flatMap Placed.premises) where
  measured := by
    intro q hq
    obtain ⟨p, hp, hq⟩ := List.mem_flatMap.mp hq
    exact (h.measured p hp).upper q.box (mem_premises (h.measured p hp) hq).1
  apart := by
    rw [List.pairwise_flatMap]
    constructor
    · intro p hp
      exact pairwise_across (fun b hb => ((h.measured p hp).upper b hb).fits) _
    · apply h.apart.imp_of_mem
      intro p p' hp hp' hpp' q hq q' hq'
      have hq := (mem_premises (h.measured p hp) hq).2.2
      have hq' := (mem_premises (h.measured p' hp') hq').2.1
      rw [Apart] at hpp' ⊢
      omega

/-- **The marks of a row are apart.** -/
theorem pairwise_marks (h : Spread F) (n : Nat) : (marks n F).Pairwise InkMark.Apart := by
  induction n using Nat.twoStepInduction generalizing F with
  | zero =>
      rw [marks, List.pairwise_map]
      apply h.apart.imp_of_mem
      intro p q hp hq hpq
      exact hpq.marks (holds_sequent (h.measured p hp).fits) (holds_sequent (h.measured q hq).fits)
  | one =>
      rw [marks, List.pairwise_filterMap]
      apply h.apart.imp_of_mem
      intro p q hp hq hpq m hm n hn
      exact hpq.marks (holds_line (h.measured p hp).fits hm) (holds_line (h.measured q hq).fits hn)
  | more n ih _ => exact ih h.premises

theorem solid_marks (h : Spread F) (n : Nat) : ∀ m ∈ marks n F, Solid m.text := by
  induction n using Nat.twoStepInduction generalizing F with
  | zero =>
      intro m hm
      obtain ⟨p, hp, rfl⟩ := List.mem_map.mp hm
      exact (h.measured p hp).solid
  | one =>
      intro m hm
      obtain ⟨p, hp, hm⟩ := List.mem_filterMap.mp hm
      exact solid_line (h.measured p hp) hm
  | more n ih _ => exact ih h.premises

end Spread

/-! ## Heights -/

theorem rowHeight_le_iff {bs : List Box} {m : Nat} :
    rowHeight bs ≤ m ↔ ∀ b ∈ bs, b.height ≤ m := by
  induction bs with
  | nil => simp [rowHeight]
  | cons b bs ih => rw [rowHeight, Nat.max_le, ih, List.forall_mem_cons]

theorem height_le_rowHeight {b : Box} {bs : List Box} (h : b ∈ bs) : b.height ≤ rowHeight bs :=
  rowHeight_le_iff.mp (Nat.le_refl _) b h

namespace Box.Measured

variable {b : Box}

theorem height_pos (h : b.Measured) : 0 < b.height := by
  cases h with
  | goal _ => exact Nat.one_pos
  | rule _ _ _ => exact Nat.succ_pos _

theorem label_eq_none (h : b.Measured) (hheight : b.height ≤ 1) : b.label = none := by
  cases h with
  | goal _ => rfl
  | rule _ _ _ => exact absurd (Nat.le_of_succ_le_succ hheight) (Nat.not_succ_le_zero _)

theorem height_upper (h : b.Measured) {c : Box} (hc : c ∈ b.upper) : c.height + 2 ≤ b.height := by
  cases h with
  | goal _ => cases hc
  | rule _ _ _ => exact Nat.add_le_add_right (height_le_rowHeight hc) 2

end Box.Measured

/-- Above boxes there is nothing. -/
theorem Spread.marks_eq_nil {F : List Placed} (h : Spread F) {n : Nat}
    (hheight : ∀ p ∈ F, p.box.height ≤ n) : marks n F = [] := by
  induction n using Nat.twoStepInduction generalizing F with
  | zero =>
      rw [marks, List.map_eq_nil_iff, List.eq_nil_iff_forall_not_mem]
      intro p hp
      have := (h.measured p hp).height_pos
      have := hheight p hp
      omega
  | one =>
      rw [marks, List.filterMap_eq_nil_iff]
      intro p hp
      rw [line?, (h.measured p hp).label_eq_none (hheight p hp), Option.map_none]
  | more n ih _ =>
      apply ih h.premises
      intro q hq
      obtain ⟨p, hp, hq⟩ := List.mem_flatMap.mp hq
      have hupper := (mem_premises (h.measured p hp) hq).1
      have := (h.measured p hp).height_upper hupper
      have := hheight p hp
      omega

/-! ## The boxes of a derivation -/

theorem Formula.isBlankChar_of_mem (st : Style) (p : Formula) {c : Char}
    (h : c ∈ (p.print st).toList) : isBlankChar c = false :=
  (isFormulaChar_iff.mp (p.isFormulaChar_of_mem st h)).1

theorem Formula.solid_print (st : Style) (p : Formula) : Solid (p.print st).toList :=
  .word (p.toList_print_ne_nil st) fun _ hc => p.isBlankChar_of_mem st hc

namespace Sequent

theorem solid_formatHyps (st : Style) (hs : List Formula) {t : List Char} (ht : Solid t) :
    Solid ((Span.plainText (formatHyps st hs)).toList ++ t) := by
  fun_induction formatHyps st hs with
  | case1 => exact ht
  | case2 h =>
      have htext : (Span.plainText (h.format st ++ [blankSpan])).toList ++ t =
          (h.print st).toList ++ ' ' :: t := by
        simp [Span.toList_plainText_append, Span.plainText, Formula.print]
      rw [htext]
      exact .join (h.solid_print st) ht
  | case3 h hs _ ih =>
      have htext : (Span.plainText
          (h.format st ++ Symbol.comma.span st :: blankSpan :: formatHyps st hs)).toList ++ t =
          ((h.print st).toList ++ [',']) ++ ' ' ::
            ((Span.plainText (formatHyps st hs)).toList ++ t) := by
        simp [Span.toList_plainText_append, Span.plainText, Formula.print,
          Symbol.text_span_comma]
      have hword : ∀ c ∈ (h.print st).toList ++ [','], isBlankChar c = false := by
        rw [List.forall_mem_append, List.forall_mem_singleton]
        exact ⟨fun c hc => h.isBlankChar_of_mem st hc, by decide⟩
      rw [htext]
      exact .join (.word (by simp) hword) ih

/-- **Printed sequents are solid.** -/
theorem solid_print (st : Style) (s : Sequent) : Solid (s.print st).toList := by
  have hturnstile : Solid (Symbol.turnstile.span st).text.toList := by
    rw [Symbol.span]
    cases st.unicode <;> exact .word (by decide) (List.all_iff_forall_prop.mp (by decide))
  have htext : (s.print st).toList = (Span.plainText (formatHyps st s.hyps)).toList ++
      ((Symbol.turnstile.span st).text.toList ++ ' ' :: (s.concl.print st).toList) := by
    simp [print, format, Span.toList_plainText_append, Span.plainText, Formula.print]
  rw [htext]
  exact solid_formatHyps st s.hyps (.join hturnstile (s.concl.solid_print st))

end Sequent

namespace Rule

theorem mem_all (k : Rule) : k ∈ all := by
  cases k <;> decide

/-- **Labels are words without lines in them.** -/
theorem label_chars (unicode : Bool) (k : Rule) :
    ∀ c ∈ (k.label unicode).toList, isBlankChar c = false ∧ c ≠ '─' := by
  have hall : ∀ unicode, ∀ k ∈ all, (k.label unicode).toList.all
      (fun c => isBlankChar c = false ∧ c ≠ '─') = true := by decide +kernel
  exact List.all_iff_forall_prop.mp (hall unicode k k.mem_all)

/-- **Labels tell the rules apart.** -/
theorem label_injective (unicode : Bool) {k k' : Rule} (h : k.label unicode = k'.label unicode) :
    k = k' := by
  have hall : ∀ unicode, (all.map (label unicode)).Nodup := by decide +kernel
  exact List.inj_on_of_nodup_map (hall unicode) k.mem_all k'.mem_all h

end Rule

namespace Picture

theorem ofPremises_none {st : Style} {ds : List Derivation}
    (h : ∀ d ∈ ds, ∀ path, ofDerivation st none path d = box { style := st } d) (path : Path)
    (i : Nat) : ofPremises st none path i ds = ds.map (box { style := st }) := by
  induction ds generalizing i with
  | nil => rw [ofPremises, List.map_nil]
  | cons d ds ih =>
      obtain ⟨hd, hds⟩ := List.forall_mem_cons.mp h
      rw [ofPremises, hd, ih hds, List.map_cons]

/-- Without emphasis it does not matter where a derivation stands. -/
theorem ofDerivation_none (st : Style) (path : Path) (d : Derivation) :
    ofDerivation st none path d = box { style := st } d := by
  induction d using Derivation.inductOn generalizing path with
  | goal s => simp [box, ofDerivation]
  | node s k ds ih =>
      have hbox : box { style := st } (.node s k ds) = ofDerivation st none [] (.node s k ds) := rfl
      rw [hbox, ofDerivation, ofDerivation, ofPremises_none ih, ofPremises_none ih]
      simp

variable {st : Style} {marked : Option Path}

theorem upper_ofDerivation (path : Path) (d : Derivation) :
    (ofDerivation st marked path d).upper = ofPremises st marked path 0 d.premises := by
  cases d with
  | goal s => rw [ofDerivation, Derivation.premises, ofPremises]; rfl
  | node s k ds => rw [ofDerivation]; rfl

theorem spans_ofDerivation (path : Path) (d : Derivation) :
    (ofDerivation st marked path d).text = d.sequent.format st (marked = some path) := by
  cases d <;> rw [ofDerivation] <;> rfl

theorem text_ofDerivation (path : Path) (d : Derivation) :
    Span.plainText (ofDerivation st marked path d).text = d.sequent.print st := by
  rw [spans_ofDerivation, Sequent.plainText_format]

theorem label_ofDerivation (path : Path) (d : Derivation) :
    (ofDerivation st marked path d).label = d.rule?.map (Rule.label st.unicode) := by
  cases d with
  | goal s => rw [ofDerivation]; rfl
  | node s k ds => rw [ofDerivation]; rfl

theorem forall_mem_ofPremises {ds : List Derivation} {P : Box → Prop} {Q : Derivation → Prop}
    (h : ∀ d ∈ ds, ∀ path, P (ofDerivation st marked path d) ↔ Q d) (path : Path) (i : Nat) :
    (∀ b ∈ ofPremises st marked path i ds, P b) ↔ ∀ d ∈ ds, Q d := by
  induction ds generalizing i with
  | nil => simp [ofPremises]
  | cons d ds ih =>
      obtain ⟨hd, hds⟩ := List.forall_mem_cons.mp h
      rw [ofPremises, List.forall_mem_cons, List.forall_mem_cons, hd, ih hds]

theorem forall_mem_ofPremises_of_forall {ds : List Derivation} {P : Box → Prop}
    (h : ∀ d ∈ ds, ∀ path, P (ofDerivation st marked path d)) (path : Path) (i : Nat) :
    ∀ b ∈ ofPremises st marked path i ds, P b := by
  have hiff := forall_mem_ofPremises (Q := fun _ => True)
    (fun d hd path => iff_of_true (h d hd path) trivial) path i
  exact hiff.mpr fun _ _ => trivial

/-- **Every derivation has a measured box**, wherever it stands and whatever is
emphasized in it. -/
theorem measured_ofDerivation (st : Style) (marked : Option Path) (path : Path) (d : Derivation) :
    (ofDerivation st marked path d).Measured := by
  have hsolid : ∀ (s : Sequent) (emphasis : Bool),
      Solid (Span.plainText (s.format st emphasis)).toList := by
    intro s emphasis
    rw [Sequent.plainText_format]
    exact s.solid_print st
  induction d using Derivation.inductOn generalizing path with
  | goal s =>
      rw [ofDerivation]
      exact .goal (hsolid s _)
  | node s k ds ih =>
      rw [ofDerivation]
      refine .rule (hsolid s _) (k.label_chars st.unicode) ?_
      exact forall_mem_ofPremises_of_forall ih path 0

theorem measured_box (opts : Options) (d : Derivation) : (box opts d).Measured :=
  measured_ofDerivation _ _ _ d

end Picture

end Sequitur
