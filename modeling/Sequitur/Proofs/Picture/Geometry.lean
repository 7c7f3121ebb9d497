import Mathlib.Data.List.Forall2
import Sequitur.Proofs.Derivation.Traversal
import Sequitur.Proofs.Picture.Rectangle

/-!
# Sequitur.Proofs.Picture.Geometry

The geometry of a drawing, told by the nodes of the derivation.  A plan gives
every node the column of its sequent and the columns between which its inference
line runs; every drawing follows one (`lines_follow_plan`).

* A line of the drawing is typeset from the marks of its row and from blanks, and
  there are no empty lines (`getElem?_reverse_lines`).
* The boxes that are `k` premises away from the root are those of the nodes at
  depth `k`, in the order of the walk (`forall₂_level`), so that the marks of rows
  `2 * k` and `2 * k + 1` are the sequents and the lines of these nodes.
* The line of a node covers its sequent and the span of its premises, and their
  middles are in one column (`Sited.joins`).
-/

namespace Sequitur

open Box Placed

/-! ## Lines made of marks -/

/-- The text from column `x` up to column `stop` of a line on which marks stand,
each at its column, and nothing else. -/
def typeset (x stop : Int) : List InkMark → List Char
  | [] => List.replicate (stop - x).toNat ' '
  | m :: ms => List.replicate (m.column - x).toNat ' ' ++ (m.text ++ typeset m.stop stop ms)

theorem ink_blanks_append (x : Int) (n : Nat) (t : List Char) :
    ink x (List.replicate n ' ' ++ t) = ink (x + n) t := by
  rw [ink_append, ink_of_blank fun c hc => List.eq_of_mem_replicate hc, List.nil_append,
    List.length_replicate]

/-- Marks in order are typeset where they stand. -/
theorem typeset_spec {x stop : Int} {ms : List InkMark} (hx : x ≤ stop)
    (hms : ∀ m ∈ ms, x ≤ m.column ∧ m.stop ≤ stop) (hapart : ms.Pairwise InkMark.Apart) :
    ((typeset x stop ms).length : Int) = stop - x ∧
      ink x (typeset x stop ms) = ms.flatMap InkMark.ink := by
  induction ms generalizing x with
  | nil =>
      constructor
      · rw [typeset, List.length_replicate]
        omega
      · rw [typeset, ink_of_blank fun c hc => List.eq_of_mem_replicate hc, List.flatMap_nil]
  | cons m ms ih =>
      obtain ⟨⟨hcolumn, hstop⟩, hrest⟩ := List.forall_mem_cons.mp hms
      obtain ⟨hfirst, hapart⟩ := List.pairwise_cons.mp hapart
      have hnext : ∀ n ∈ ms, m.stop ≤ n.column ∧ n.stop ≤ stop := by
        intro n hn
        have hgap := hfirst n hn
        rw [InkMark.Apart, premiseGap] at hgap
        exact ⟨by omega, (hrest n hn).2⟩
      obtain ⟨hlength, hink⟩ := ih hstop hnext hapart
      have hblanks : x + ((m.column - x).toNat : Int) = m.column := by omega
      have htext : m.column + m.text.length = m.stop := rfl
      constructor
      · rw [typeset, List.length_append, List.length_append, List.length_replicate]
        omega
      · rw [typeset, ink_blanks_append, hblanks, ink_append, htext, hink, List.flatMap_cons]
        rfl

/-- Pieces that show marks in order are the marks, typeset. -/
theorem Shows.toList_eq_typeset {x width : Int} {ps : List Piece} {ms : List InkMark}
    (h : Shows x ps width ms) (hms : ∀ m ∈ ms, x ≤ m.column ∧ m.stop ≤ x + width)
    (hapart : ms.Pairwise InkMark.Apart) :
    (Piece.paintRow Painter.plain ps).toList = typeset x (x + width) ms := by
  have hwidth := h.length_eq
  rw [← String.length_toList] at hwidth
  obtain ⟨hlength, hink⟩ := typeset_spec (by omega) hms hapart
  apply eq_of_ink_eq
  · omega
  · rw [h.ink_eq, hink]

/-! ## The marks of a row -/

/-- Every mark stands within one of the boxes. -/
theorem Spread.exists_holds {F : List Placed} (h : Spread F) {n : Nat} {m : InkMark}
    (hm : m ∈ marks n F) : ∃ p ∈ F, p.Holds m := by
  induction n using Nat.twoStepInduction generalizing F with
  | zero =>
      obtain ⟨p, hp, rfl⟩ := List.mem_map.mp hm
      exact ⟨p, hp, holds_sequent (h.measured p hp).fits⟩
  | one =>
      obtain ⟨p, hp, hm⟩ := List.mem_filterMap.mp hm
      exact ⟨p, hp, holds_line (h.measured p hp).fits hm⟩
  | more n ih _ =>
      obtain ⟨q, hq, hstart, hstop⟩ := ih h.premises hm
      obtain ⟨p, hp, hq⟩ := List.mem_flatMap.mp hq
      obtain ⟨-, hcolumn, hend⟩ := mem_premises (h.measured p hp) hq
      exact ⟨p, hp, Int.le_trans hcolumn hstart, Int.le_trans hstop hend⟩

theorem exists_mem_across {b : Box} {bs : List Box} (h : b ∈ bs) (x : Int) :
    ∃ y, ⟨y, b⟩ ∈ across x bs := by
  rw [← map_box_across x bs] at h
  obtain ⟨p, hp, rfl⟩ := List.mem_map.mp h
  exact ⟨p.column, hp⟩

theorem marks_ne_nil_of_mem {n : Nat} {p : Placed} {F : List Placed} (hp : p ∈ F)
    (h : marks n [p] ≠ []) : marks n F ≠ [] := by
  obtain ⟨before, after, rfl⟩ := List.append_of_mem hp
  rw [marks_append, marks_cons]
  simp [h]

/-- No row of a box is empty. -/
theorem Box.Measured.marks_ne_nil {b : Box} (h : b.Measured) {n : Nat} (hn : n < b.height)
    (x : Int) : marks n [⟨x, b⟩] ≠ [] := by
  induction h generalizing n x with
  | @goal text _ =>
      obtain rfl : n = 0 := Nat.lt_one_iff.mp hn
      simp [marks]
  | @rule text label upper _ _ _ ih =>
      cases n using Nat.twoStepInduction with
      | zero => simp [marks]
      | one => simp [marks, line?, ofRule, Box.label]
      | more n =>
          have hupper : ¬ rowHeight upper ≤ n := by
            have hheight : (ofRule text label upper).height = rowHeight upper + 2 := rfl
            omega
          rw [rowHeight_le_iff] at hupper
          push Not at hupper
          obtain ⟨c, hc, hlt⟩ := hupper
          rw [marks, List.flatMap_singleton]
          obtain ⟨y, hy⟩ := exists_mem_across hc
            (x + ((ofRule text label upper).center - upperLeft upper))
          exact marks_ne_nil_of_mem hy (ih c hc hlt y)

namespace Picture

/-- The line that marks make, if there are any. -/
def lineOf? (width : Int) (ms : List InkMark) : Option String :=
  if ms.isEmpty then none else some (String.ofList (typeset 0 width ms))

variable {st : Style} {emphasis : Bool} {marked : Option Path} {d : Derivation}

/-- **The lines of a drawing are made of the marks of its rows**, the lowest line
being that of row 0. -/
theorem getElem?_reverse_lines (st : Style) (emphasis : Bool) (d : Derivation) (n : Nat) :
    (lines { style := st, emphasis := emphasis } d).reverse[n]? =
      lineOf? (box { style := st, emphasis := emphasis } d).width
        (marks n [⟨0, box { style := st, emphasis := emphasis } d⟩]) := by
  generalize hopts : ({ style := st, emphasis := emphasis } : Options) = opts
  have hplain : opts.painter = Painter.plain := by rw [← hopts]
  have hmeasured := measured_box opts d
  have hspread := Spread.singleton hmeasured 0
  have hlines : (lines opts d).reverse =
      (List.range (box opts d).height).map fun n =>
        Piece.paintRow Painter.plain ((box opts d).row n) := by
    simp [lines, rows, hplain]
  rw [hlines, List.getElem?_map, lineOf?]
  by_cases hn : n < (box opts d).height
  · have hmarks : ∀ m ∈ marks n [⟨0, box opts d⟩],
        0 ≤ m.column ∧ m.stop ≤ 0 + (box opts d).width := by
      intro m hm
      obtain ⟨p, hp, hholds⟩ := hspread.exists_holds hm
      obtain rfl := List.mem_singleton.mp hp
      exact hholds
    have htext := (hmeasured.shows_row n 0).toList_eq_typeset hmarks (hspread.pairwise_marks n)
    rw [List.getElem?_range hn, Option.map_some, if_neg, ← String.ofList_toList
      (s := Piece.paintRow Painter.plain ((box opts d).row n)), htext, Int.zero_add]
    rw [List.isEmpty_iff]
    exact hmeasured.marks_ne_nil hn 0
  · have hnil : marks n [⟨0, box opts d⟩] = [] := by
      apply hspread.marks_eq_nil
      rw [List.forall_mem_singleton]
      exact Nat.le_of_not_lt hn
    rw [hnil, List.getElem?_eq_none (by simpa using hn)]
    rfl

end Picture

/-! ## Levels -/

namespace Placed

/-- The boxes that are `k` premises away. -/
def level : Nat → List Placed → List Placed
  | 0, F => F
  | k + 1, F => level k (F.flatMap premises)

theorem level_append (k : Nat) (F G : List Placed) : level k (F ++ G) = level k F ++ level k G := by
  induction k generalizing F G with
  | zero => rfl
  | succ k ih => rw [level, List.flatMap_append, ih, level, level]

theorem level_nil (k : Nat) : level k [] = [] := by
  induction k with
  | zero => rfl
  | succ k ih => exact ih

theorem marks_two_mul (k : Nat) (F : List Placed) : marks (2 * k) F = (level k F).map sequent := by
  induction k generalizing F with
  | zero => rfl
  | succ k ih => exact ih (F.flatMap premises)

theorem marks_two_mul_add_one (k : Nat) (F : List Placed) :
    marks (2 * k + 1) F = (level k F).filterMap line? := by
  induction k generalizing F with
  | zero => rfl
  | succ k ih => exact ih (F.flatMap premises)

/-- The box at a path, counting premises from the left. -/
def at? (p : Placed) : Path → Option Placed
  | [] => some p
  | i :: path => (nth? p.premises i).bind fun q => q.at? path

theorem at?_append (p : Placed) (path more : Path) :
    p.at? (path ++ more) = (p.at? path).bind (·.at? more) := by
  induction path generalizing p with
  | nil => rfl
  | cons i path ih =>
      rw [List.cons_append, at?, at?]
      cases nth? p.premises i with
      | none => rfl
      | some q => exact ih q

/-- A premise's box is reached through the premise's position. -/
theorem at?_premise {root p q : Placed} {path : Path} {m : Nat} (hp : root.at? path = some p)
    (hq : p.premises[m]? = some q) : root.at? (path ++ [(m : Int)]) = some q := by
  rw [at?_append, hp, Option.bind_some, at?, nth?_natCast, hq, Option.bind_some, at?]

end Placed

namespace Derivation

/-- The nodes at a depth, with their paths, in the order of the walk. -/
def nodesAt (d : Derivation) (k : Nat) : List (Path × Derivation) :=
  (d.walk fun _ => true).filter fun n => n.1.length = k

/-- Of a walk, only its root is as short as the path to it. -/
theorem filter_walkFrom_root (path : Path) (d : Derivation) :
    (walkFrom (fun _ => true) path d).filter (fun n => n.1.length = path.length) = [(path, d)] := by
  cases d with
  | goal s => simp [walkFrom]
  | node s k ds =>
      have hbelow : (walkAmong (fun _ => true) path 0 ds).filter
          (fun n => n.1.length = path.length) = [] := by
        rw [List.filter_eq_nil_iff]
        intro n hn
        obtain ⟨j, p, hp⟩ := exists_of_mem_walkAmong hn
        simp [hp]
      rw [walkFrom, if_pos rfl, List.filter_cons_of_pos (by simp), hbelow]

/-- Deeper down there is what lies below the premises. -/
theorem filter_walkFrom_succ (path : Path) (d : Derivation) (k : Nat) :
    (walkFrom (fun _ => true) path d).filter (fun n => n.1.length = path.length + (k + 1)) =
      (walkAmong (fun _ => true) path 0 d.premises).filter
        fun n => n.1.length = path.length + 1 + k := by
  have hlength : path.length + (k + 1) = path.length + 1 + k := by omega
  rw [hlength]
  cases d with
  | goal s => simp [walkFrom, walkAmong, premises]; omega
  | node s r ds =>
      rw [walkFrom, if_pos rfl, List.filter_cons_of_neg (by simp; omega), premises]

end Derivation

namespace Picture

variable {st : Style} {marked : Option Path}

/-- A box that stands where the path of a node leads, and is the box of that node. -/
structure Sited (root : Placed) (st : Style) (marked : Option Path) (q : Placed)
    (n : Path × Derivation) : Prop where
  at?_eq : root.at? n.1 = some q
  box_eq : q.box = ofDerivation st marked n.1 n.2

/-- Where the boxes of a node's premises stand. -/
theorem Sited.premises_eq {root q : Placed} {path : Path} {d : Derivation}
    (h : Sited root st marked q (path, d)) :
    q.premises = across (q.column + (q.box.center - upperLeft q.box.upper))
      (ofPremises st marked path 0 d.premises) := by
  rw [premises, ← upper_ofDerivation, ← h.box_eq]

/-- The premises of derivations side by side stand side by side. -/
theorem forall₂_levelAmong {root : Placed} {path : Path} {k : Nat}
    (ih : ∀ (path : Path) (d : Derivation) (q : Placed), Sited root st marked q (path, d) →
      List.Forall₂ (Sited root st marked) (level k [q])
        ((Derivation.walkFrom (fun _ => true) path d).filter fun n => n.1.length = path.length + k))
    (ds : List Derivation) (x : Int) (i : Nat)
    (hat : ∀ (m : Nat) (q : Placed), (across x (ofPremises st marked path i ds))[m]? = some q →
      root.at? (path ++ [((i + m : Nat) : Int)]) = some q) :
    List.Forall₂ (Sited root st marked) (level k (across x (ofPremises st marked path i ds)))
      ((Derivation.walkAmong (fun _ => true) path i ds).filter
        fun n => n.1.length = path.length + 1 + k) := by
  induction ds generalizing x i with
  | nil =>
      rw [ofPremises, across, level_nil, Derivation.walkAmong, List.filter_nil]
      exact .nil
  | cons d ds ihds =>
      rw [ofPremises, across] at hat ⊢
      rw [← List.singleton_append, level_append, Derivation.walkAmong, List.filter_append]
      refine List.rel_append ?_ ?_
      · have hfirst := ih (path ++ [(i : Int)]) d _ ⟨hat 0 _ rfl, rfl⟩
        simpa using hfirst
      · apply ihds
        intro m q hq
        have hrest := hat (m + 1) q hq
        rwa [Nat.add_comm m, ← Nat.add_assoc] at hrest

/-- **The boxes of a level are those of the nodes at that depth**, in the order in
which the walk comes by them. -/
theorem forall₂_levelFrom {root : Placed} (k : Nat) (path : Path) (d : Derivation) (q : Placed)
    (h : Sited root st marked q (path, d)) :
    List.Forall₂ (Sited root st marked) (level k [q])
      ((Derivation.walkFrom (fun _ => true) path d).filter
        fun n => n.1.length = path.length + k) := by
  induction k generalizing path d q with
  | zero =>
      rw [Nat.add_zero, Derivation.filter_walkFrom_root]
      exact .cons h .nil
  | succ k ih =>
      rw [Derivation.filter_walkFrom_succ, level, List.flatMap_singleton, h.premises_eq]
      refine forall₂_levelAmong ih d.premises _ 0 fun m p hp => ?_
      rw [← h.premises_eq] at hp
      rw [Nat.zero_add]
      exact at?_premise h.at?_eq hp

theorem forall₂_level {root : Placed} {d : Derivation}
    (hbox : root.box = ofDerivation st marked [] d) (k : Nat) :
    List.Forall₂ (Sited root st marked) (level k [root]) (d.nodesAt k) := by
  have hlevel := forall₂_levelFrom k [] d root ⟨rfl, hbox⟩
  rwa [List.length_nil, Nat.zero_add] at hlevel

end Picture

/-! ## Spans -/

/-- The number of columns of a printed sequent. -/
def Sequent.columns (st : Style) (s : Sequent) : Int := (s.print st).length

/-- Where the parts of a drawing stand, by the paths of the nodes: the column of a
sequent, and the columns from which and up to which an inference line runs. -/
structure Plan where
  sequent : Path → Int
  lineStart : Path → Int
  lineStop : Path → Int

namespace Plan

/-- The sequents of the nodes at a depth. -/
def sequents (plan : Plan) (st : Style) (d : Derivation) (k : Nat) : List InkMark :=
  (d.nodesAt k).map fun n => ⟨plan.sequent n.1, (n.2.sequent.print st).toList⟩

/-- The inference lines of the nodes at a depth that have a rule, each followed by
its label. -/
def rules (plan : Plan) (st : Style) (d : Derivation) (k : Nat) : List InkMark :=
  (d.nodesAt k).filterMap fun n => n.2.rule?.map fun rule =>
    ⟨plan.lineStart n.1, List.replicate (plan.lineStop n.1 - plan.lineStart n.1).toNat '─' ++
      (rule.label st.unicode).toList⟩

/-- The line above a sequent covers the sequent and the span from the first premise
to the last, and no more; and where there are premises, the left halves of the
sequent and of the span end in one column. -/
structure Joins (plan : Plan) (st : Style) (path : Path) (s : Sequent) (ds : List Derivation) :
    Prop where
  alone : ds = [] → plan.lineStart path = plan.sequent path ∧
    plan.lineStop path = plan.sequent path + s.columns st
  spanning : ∀ last, ds.getLast? = some last →
    let start := plan.sequent (path ++ [0])
    let stop := plan.sequent (path ++ [((ds.length - 1 : Nat) : Int)]) + last.sequent.columns st
    plan.lineStart path = min (plan.sequent path) start ∧
    plan.lineStop path = max (plan.sequent path + s.columns st) stop ∧
    plan.sequent path + s.columns st / 2 = start + (stop - start) / 2

end Plan

/-- The plan that boxes follow, the root of which is placed. -/
def Placed.plan (root : Placed) : Plan where
  sequent path := ((root.at? path).map fun q => q.column + q.box.bottomX).getD 0
  lineStart path := ((root.at? path).map fun q => q.column + q.box.lineStart).getD 0
  lineStop path := ((root.at? path).map fun q => q.column + q.box.lineEnd).getD 0

/-- Behind the last of boxes side by side their span ends. -/
theorem Placed.stop_getLast? {bs : List Box} {x : Int} {p : Placed}
    (h : (across x bs).getLast? = some p) :
    p.column + p.box.bottomX + p.box.bottomWidth = x + spanEnd bs := by
  induction bs generalizing x with
  | nil => simp [across] at h
  | cons b bs ih =>
      cases bs with
      | nil =>
          obtain rfl : ⟨x, b⟩ = p := by simpa [across] using h
          rw [spanEnd, Int.add_assoc]
      | cons b' bs =>
          have hspan : spanEnd (b :: b' :: bs) = b.width + premiseGap + spanEnd (b' :: bs) := rfl
          rw [across, across, List.getLast?_cons_cons, ← across] at h
          rw [ih h, hspan]
          omega

namespace Box

/-- The line of a box without premises covers its sequent. -/
theorem line_ofRule_nil (text : List Span) (label : String) :
    (ofRule text label []).lineStart = (ofRule text label []).bottomX ∧
      (ofRule text label []).lineEnd = (ofRule text label []).bottomX + columns text := by
  have hcolumns := columns_nonneg text
  constructor <;>
    simp [ofRule, lineStart, lineEnd, bottomX, bottomWidth, center, measures, upper, upperLeft,
      spanX, spanEnd, spanWidth, leftHalf, rightHalf] <;>
    omega

/-- The line of a box covers its sequent and the span of its premises, which have
their middles in one column. -/
theorem line_ofRule (text : List Span) (label : String) (upper : List Box) :
    let b := ofRule text label upper
    let x := b.center - upperLeft upper
    b.lineStart = min b.bottomX (x + spanX upper) ∧
      b.lineEnd = max (b.bottomX + columns text) (x + spanEnd upper) ∧
      b.bottomX + columns text / 2 = x + spanX upper + (spanEnd upper - spanX upper) / 2 := by
  intro b x
  refine ⟨?_, ?_, ?_⟩ <;>
    simp [b, x, ofRule, lineStart, lineEnd, bottomX, bottomWidth, center, measures, Box.upper,
      upperLeft, spanWidth, leftHalf, rightHalf] <;>
    omega

end Box

namespace Picture

variable {st : Style} {marked : Option Path} {root q : Placed} {path : Path} {d : Derivation}

/-! ## The plan of a drawing -/

theorem getElem?_ofPremises (path : Path) (i m : Nat) (ds : List Derivation) :
    (ofPremises st marked path i ds)[m]? =
      ds[m]?.map (ofDerivation st marked (path ++ [((i + m : Nat) : Int)])) := by
  induction ds generalizing i m with
  | nil => simp [ofPremises]
  | cons d ds ih =>
      rw [ofPremises]
      cases m with
      | zero => simp
      | succ m => rw [List.getElem?_cons_succ, ih, List.getElem?_cons_succ, Nat.add_right_comm]; rfl

theorem length_ofPremises (path : Path) (i : Nat) (ds : List Derivation) :
    (ofPremises st marked path i ds).length = ds.length := by
  induction ds generalizing i with
  | nil => simp [ofPremises]
  | cons d ds ih => rw [ofPremises, List.length_cons, ih, List.length_cons]

namespace Sited

theorem plan_sequent (h : Sited root st marked q (path, d)) :
    root.plan.sequent path = q.column + q.box.bottomX := by
  simp [plan, h.at?_eq]

theorem plan_lineStart (h : Sited root st marked q (path, d)) :
    root.plan.lineStart path = q.column + q.box.lineStart := by
  simp [plan, h.at?_eq]

theorem plan_lineStop (h : Sited root st marked q (path, d)) :
    root.plan.lineStop path = q.column + q.box.lineEnd := by
  simp [plan, h.at?_eq]

theorem sequent_eq (h : Sited root st marked q (path, d)) :
    q.sequent = ⟨root.plan.sequent path, (d.sequent.print st).toList⟩ := by
  rw [sequent, h.plan_sequent, h.box_eq, text_ofDerivation]

theorem line?_eq (h : Sited root st marked q (path, d)) :
    q.line? = d.rule?.map fun rule =>
      ⟨root.plan.lineStart path,
        List.replicate (root.plan.lineStop path - root.plan.lineStart path).toNat '─' ++
          (rule.label st.unicode).toList⟩ := by
  have hwidth : q.column + q.box.lineEnd - (q.column + q.box.lineStart) =
      q.box.lineEnd - q.box.lineStart := by omega
  have hlabel : q.box.label = d.rule?.map (Rule.label st.unicode) := by
    rw [h.box_eq, label_ofDerivation]
  rw [line?, hlabel, h.plan_lineStart, h.plan_lineStop, hwidth, Option.map_map]
  rfl

/-- The sequent of a sited box is as wide as the sequent of its node. -/
theorem bottomWidth_eq (h : Sited root st marked q (path, d)) :
    q.box.bottomWidth = d.sequent.columns st := by
  have hmeasured : q.box.Measured := h.box_eq ▸ measured_ofDerivation st marked path d
  rw [hmeasured.fits.bottomWidth_eq, columns, h.box_eq, text_ofDerivation, Sequent.columns]

/-- The premises of a sited node are sited. -/
theorem premise (h : Sited root st marked q (path, d)) {m : Nat} {e : Derivation}
    (he : d.premises[m]? = some e) :
    ∃ p, q.premises[m]? = some p ∧ Sited root st marked p (path ++ [(m : Int)], e) := by
  have hbox : (q.premises.map Placed.box)[m]? =
      some (ofDerivation st marked (path ++ [(m : Int)]) e) := by
    rw [h.premises_eq, map_box_across, getElem?_ofPremises, he, Option.map_some, Nat.zero_add]
  rw [List.getElem?_map, Option.map_eq_some_iff] at hbox
  obtain ⟨p, hp, hbox⟩ := hbox
  exact ⟨p, hp, at?_premise h.at?_eq hp, hbox⟩

/-- The nodes below a sited node are sited. -/
theorem below {more : Path} {n : Derivation} (h : Sited root st marked q (path, d))
    (hat : d.at? more = some n) : ∃ p, Sited root st marked p (path ++ more, n) := by
  induction more generalizing path d q with
  | nil =>
      obtain rfl : d = n := Option.some.inj hat
      exact ⟨q, by rwa [List.append_nil]⟩
  | cons i more ih =>
      obtain ⟨_, _, _, m, e, rfl, rfl, hm, hn⟩ := Derivation.at?_cons_eq_some hat
      obtain ⟨p, -, hp⟩ := h.premise (e := e) hm
      obtain ⟨p', hp'⟩ := ih hp hn
      exact ⟨p', by rwa [List.append_assoc, List.singleton_append] at hp'⟩

/-- Where there are premises, the first of them starts the span. -/
theorem plan_first {b : Derivation} {ds : List Derivation}
    (h : Sited root st marked q (path, d)) (hds : d.premises = b :: ds) :
    root.plan.sequent (path ++ [0]) =
      q.column + (q.box.center - upperLeft q.box.upper) + spanX q.box.upper := by
  obtain ⟨p, hp, hsited⟩ := h.premise (m := 0) (e := b) (by rw [hds]; rfl)
  have hupper : q.box.upper = ofPremises st marked path 0 d.premises := by
    rw [h.box_eq, upper_ofDerivation]
  rw [h.premises_eq, hds, ofPremises, across] at hp
  obtain rfl := Option.some.inj hp
  have hfirst := hsited.plan_sequent
  rw [Int.natCast_zero] at hfirst
  rw [hfirst, hupper, hds, ofPremises, spanX]
  rfl

/-- Where there are premises, the last of them ends the span. -/
theorem plan_last {last : Derivation} (h : Sited root st marked q (path, d))
    (hlast : d.premises.getLast? = some last) :
    root.plan.sequent (path ++ [((d.premises.length - 1 : Nat) : Int)]) + last.sequent.columns st =
      q.column + (q.box.center - upperLeft q.box.upper) + spanEnd q.box.upper := by
  rw [List.getLast?_eq_getElem?] at hlast
  obtain ⟨p, hp, hsited⟩ := h.premise hlast
  have hlength : q.premises.length = d.premises.length := by
    rw [← List.length_map Placed.box, h.premises_eq, map_box_across, length_ofPremises]
  rw [← hlength, ← List.getLast?_eq_getElem?] at hp
  rw [hsited.plan_sequent, ← hsited.bottomWidth_eq, Placed.stop_getLast? hp]

/-- **The line of a sited node covers its sequent and its premises**, and their
middles are in one column. -/
theorem joins {s : Sequent} {k : Rule} {ds : List Derivation}
    (h : Sited root st marked q (path, .node s k ds)) : root.plan.Joins st path s ds := by
  have hcolumns : columns q.box.text = s.columns st := by
    rw [columns, h.box_eq, text_ofDerivation]
    rfl
  have hbox : q.box = ofRule q.box.text (k.label st.unicode) (ofPremises st marked path 0 ds) := by
    rw [h.box_eq, ofDerivation]
    rfl
  constructor
  · rintro rfl
    rw [ofPremises] at hbox
    obtain ⟨hstart, hstop⟩ := line_ofRule_nil q.box.text (k.label st.unicode)
    rw [← hbox, hcolumns] at hstop
    rw [← hbox] at hstart
    rw [h.plan_lineStart, h.plan_lineStop, h.plan_sequent]
    omega
  · intro last hlast start stop
    obtain ⟨b, bs, rfl⟩ : ∃ b bs, ds = b :: bs := by
      cases ds with
      | nil => cases hlast
      | cons b bs => exact ⟨b, bs, rfl⟩
    have hfirst : start = _ := h.plan_first rfl
    have hend : stop = _ := h.plan_last hlast
    have hupper : q.box.upper = ofPremises st marked path 0 (b :: bs) := by
      rw [h.box_eq, upper_ofDerivation]
      rfl
    have hline := line_ofRule q.box.text (k.label st.unicode) q.box.upper
    rw [hupper, ← hbox, ← hupper, hcolumns] at hline
    obtain ⟨hlineStart, hlineStop, hmiddle⟩ := hline
    rw [h.plan_lineStart, h.plan_lineStop, h.plan_sequent, hfirst, hend]
    omega

end Sited

/-- The marks of the even rows are the sequents of the nodes at a depth. -/
theorem marks_eq_sequents (hbox : root.box = ofDerivation st marked [] d) (k : Nat) :
    marks (2 * k) [root] = root.plan.sequents st d k := by
  rw [marks_two_mul, Plan.sequents, ← List.forall₂_eq_eq_eq]
  refine List.rel_map ?_ (forall₂_level hbox k)
  exact fun q n h => h.sequent_eq

/-- The marks of the odd rows are the lines of the nodes at a depth. -/
theorem marks_eq_rules (hbox : root.box = ofDerivation st marked [] d) (k : Nat) :
    marks (2 * k + 1) [root] = root.plan.rules st d k := by
  rw [marks_two_mul_add_one, Plan.rules, ← List.forall₂_eq_eq_eq]
  refine List.rel_filterMap ?_ (forall₂_level hbox k)
  intro q n h
  dsimp only
  rw [h.line?_eq]
  cases n.2.rule? with
  | none => exact .none
  | some rule => exact .some rfl

/-- **Every drawing follows a plan.**  From the bottom, line `2 * k` is made of the
sequents of the nodes at depth `k`, in the order of the walk, and line `2 * k + 1`
of the inference lines of those that have a rule, each with its label behind it;
there is such a line exactly if there are such nodes.  Neighbours on a line have a
gap between them and nothing sticks out of the drawing.  Every inference line joins
its sequent and its premises. -/
theorem lines_follow_plan (st : Style) (emphasis : Bool) (d : Derivation) :
    let opts : Options := { style := st, emphasis := emphasis }
    let width := (box opts d).width
    ∃ plan : Plan,
      (∀ k, (lines opts d).reverse[2 * k]? = lineOf? width (plan.sequents st d k)) ∧
      (∀ k, (lines opts d).reverse[2 * k + 1]? = lineOf? width (plan.rules st d k)) ∧
      (∀ k, (plan.sequents st d k).Pairwise InkMark.Apart) ∧
      (∀ k, (plan.rules st d k).Pairwise InkMark.Apart) ∧
      (∀ k, ∀ m ∈ plan.sequents st d k ++ plan.rules st d k, 0 ≤ m.column ∧ m.stop ≤ width) ∧
      ∀ path s k ds, d.at? path = some (.node s k ds) → plan.Joins st path s ds := by
  intro opts width
  have hbox : (⟨0, box opts d⟩ : Placed).box =
      ofDerivation st (if emphasis then d.nextGoal? else none) [] d := rfl
  have hspread : Spread [⟨0, box opts d⟩] := .singleton (measured_box opts d) 0
  have hsequents := marks_eq_sequents hbox
  have hrules := marks_eq_rules hbox
  refine ⟨(⟨0, box opts d⟩ : Placed).plan, fun k => ?_, fun k => ?_, fun k => ?_, fun k => ?_,
    fun k m hm => ?_, fun path s k ds hat => ?_⟩
  · rw [← hsequents, getElem?_reverse_lines]
  · rw [← hrules, getElem?_reverse_lines]
  · rw [← hsequents]
    exact hspread.pairwise_marks _
  · rw [← hrules]
    exact hspread.pairwise_marks _
  · rw [← hsequents, ← hrules, List.mem_append] at hm
    obtain ⟨n, hm⟩ : ∃ n, m ∈ marks n [⟨0, box opts d⟩] := hm.elim (⟨_, ·⟩) (⟨_, ·⟩)
    obtain ⟨p, hp, hstart, hstop⟩ := hspread.exists_holds hm
    obtain rfl := List.mem_singleton.mp hp
    rw [Placed.stop, Int.zero_add] at hstop
    exact ⟨hstart, hstop⟩
  · have hroot : Sited ⟨0, box opts d⟩ st (if emphasis then d.nextGoal? else none)
        ⟨0, box opts d⟩ ([], d) := ⟨rfl, hbox⟩
    obtain ⟨q, hq⟩ := hroot.below hat
    exact hq.joins

/-- A goal beside a rule without premises: the line above the conclusion runs from
the first premise to the end of the second. -/
theorem lines_follow_plan_conj :
    let A : Formula := .var ⟨⟨'A', rfl⟩, []⟩
    let s : Sequent := ⟨[A], .conj A A⟩
    let ds : List Derivation := [.goal ⟨[A], A⟩, .node ⟨[A], A⟩ .hypothesis []]
    let d : Derivation := .node s .conjunctionIntro ds
    d.at? [] = some (.node s .conjunctionIntro ds) ∧
      d.at? [1] = some (.node ⟨[A], A⟩ .hypothesis []) ∧
      ∃ plan : Plan,
        lineOf? 19 (plan.sequents .default d 0) = some "    A |- A/\\A      " ∧
        lineOf? 19 (plan.rules .default d 0) = some "────────────────/\\i" ∧
        lineOf? 19 (plan.sequents .default d 1) = some "A |- A    A |- A   " ∧
        lineOf? 19 (plan.rules .default d 1) = some "          ──────h  " ∧
        plan.Joins .default [] s ds ∧ plan.Joins .default [1] ⟨[A], A⟩ [] := by
  intro A s ds d
  have hlines : lines { style := .default, emphasis := false } d =
      ["          ──────h  ", "A |- A    A |- A   ", "────────────────/\\i",
        "    A |- A/\\A      "] := by decide +kernel
  have hwidth : (box { style := .default, emphasis := false } d).width = 19 := by decide +kernel
  have hroot : d.at? [] = some (.node s .conjunctionIntro ds) := rfl
  have hright : d.at? [1] = some (.node ⟨[A], A⟩ .hypothesis []) := rfl
  obtain ⟨plan, hsequents, hrules, -, -, -, hjoins⟩ := lines_follow_plan .default false d
  rw [hlines, hwidth] at hsequents hrules
  exact ⟨hroot, hright, plan, (hsequents 0).symm, (hrules 0).symm, (hsequents 1).symm,
    (hrules 1).symm, hjoins _ _ _ _ hroot, hjoins _ _ _ _ hright⟩

end Picture

end Sequitur
