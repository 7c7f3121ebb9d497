import Sequitur.Proofs.Derivation.Walk
import Sequitur.Proofs.Picture.Placement

/-!
# Sequitur.Proofs.Picture.Rectangle

A drawing is a full rectangle.  Every box of it can be painted on every row, on
its own rows and on those above it, without ever asking for a negative amount of
space (`Measured.isPaintable_row`), and every row is as wide as the box.

How many rows there are is read off the derivation: a node is drawn two rows
above its conclusion, and a rule takes a row more than a goal
(`height_ofDerivation_le_iff`).  So the number of lines is twice the depth, less
one if there are only goals at that depth.
-/

namespace Sequitur

/-- Whether what a piece repeats is repeated a number of times. -/
def Piece.IsPaintable : Piece → Prop
  | blank n => 0 ≤ n
  | line n => 0 ≤ n
  | label _ => True
  | sequent _ => True

namespace Box

/-! ## Boxes in boxes -/

/-- The boxes of which a box is made: itself and those above its line. -/
inductive Part : Box → Box → Prop where
  | self (b : Box) : Part b b
  | upper {b c e : Box} (hc : c ∈ b.upper) (h : Part c e) : Part b e

theorem Part.measured {b c : Box} (h : b.Part c) (hb : b.Measured) : c.Measured := by
  induction h with
  | self b => exact hb
  | upper hc _ ih => exact ih (hb.upper _ hc)

/-! ## Amounts of space -/

namespace Fits

variable {b : Box}

theorem isPaintable_bottom (h : b.Fits) : ∀ p ∈ row 0 b, p.IsPaintable := by
  have hx := h.bottomX_nonneg
  have hle := h.bottom_le
  simp only [row_zero, List.forall_mem_cons, Piece.IsPaintable]
  refine ⟨hx, trivial, by omega, ?_⟩
  simp

theorem isPaintable_line (h : b.Fits) {l : String} (hl : b.label = some l) :
    ∀ p ∈ row 1 b, p.IsPaintable := by
  have hbottom := h.bottomWidth_eq ▸ columns_nonneg b.text
  have hx := h.lineStart_nonneg
  have hstart := h.lineStart_le
  have hend := h.le_lineEnd
  have hle := h.lineEnd_le hl
  simp only [row_one hl, List.forall_mem_cons, Piece.IsPaintable]
  refine ⟨hx, by omega, trivial, by omega, ?_⟩
  simp

theorem isPaintable_upper (h : b.Fits) {l : String} (hl : b.label = some l) {n : Nat}
    (hupper : ∀ p ∈ rowAcross n b.upper, p.IsPaintable) : ∀ p ∈ row (n + 2) b, p.IsPaintable := by
  have hx := h.upper_nonneg
  have hle := h.upper_le
  rw [row_add_two hl, List.forall_mem_cons, List.forall_mem_append, List.forall_mem_singleton]
  refine ⟨hx, hupper, ?_⟩
  rw [Piece.IsPaintable]
  omega

end Fits

/-- **No row asks for a negative amount of space**, be it above the box or not. -/
theorem Measured.isPaintable_row {b : Box} (h : b.Measured) (n : Nat) :
    ∀ p ∈ row n b, p.IsPaintable := by
  induction h generalizing n with
  | @goal text _ =>
      have hfits := fits_ofGoal text
      match n with
      | 0 => exact hfits.isPaintable_bottom
      | n + 1 =>
          rw [row_of_label_none rfl, List.forall_mem_singleton]
          exact hfits.width_nonneg
  | @rule text label upper _ _ hupper ih =>
      have hfits := fits_ofRule (fun b hb => (hupper b hb).fits) text label
      match n with
      | 0 => exact hfits.isPaintable_bottom
      | 1 => exact hfits.isPaintable_line rfl
      | n + 2 =>
          refine hfits.isPaintable_upper rfl (forall_mem_rowAcross ?_ fun b hb => ih b hb n)
          simp [Piece.IsPaintable, premiseGap]

end Box

open Box

/-! ## Heights -/

namespace Derivation

/-- The number of rows that a node takes: its sequent and, if it has a rule, the
line above it. -/
def rowsTaken (n : Derivation) : Nat := if n.rule?.isSome then 2 else 1

theorem rowsTaken_of_isSome {n : Derivation} (h : n.rule?.isSome) : n.rowsTaken = 2 := if_pos h

theorem rowsTaken_of_not_isSome {n : Derivation} (h : ¬ n.rule?.isSome) : n.rowsTaken = 1 :=
  if_neg h

end Derivation

namespace Picture

variable {st : Style} {marked : Option Path}

theorem height_goal (path : Path) (s : Sequent) :
    (ofDerivation st marked path (.goal s)).height = 1 := by
  rw [ofDerivation]
  rfl

theorem height_node (path : Path) (s : Sequent) (k : Rule) (ds : List Derivation) :
    (ofDerivation st marked path (.node s k ds)).height =
      rowHeight (ofPremises st marked path 0 ds) + 2 := by
  rw [ofDerivation]
  rfl

/-- The rows of a drawing reach as high as its nodes, each of which stands two rows
above its conclusion. -/
theorem height_ofDerivation_le_iff {d : Derivation} {path : Path} {m : Nat} :
    (ofDerivation st marked path d).height ≤ m ↔
      ∀ q n, d.at? q = some n → 2 * q.length + n.rowsTaken ≤ m := by
  induction d using Derivation.inductOn generalizing path m with
  | goal s =>
      rw [height_goal]
      constructor
      · intro h q n hat
        obtain ⟨rfl, rfl⟩ := Derivation.at?_goal_eq_some.mp hat
        exact h
      · intro h
        exact h [] _ rfl
  | node s k ds ih =>
      rw [height_node]
      constructor
      · intro h q n hat
        rcases Derivation.at?_node_eq_some.mp hat with ⟨rfl, rfl⟩ | ⟨i, d, p, hi, rfl, hn⟩
        · have htaken : (Derivation.node s k ds).rowsTaken = 2 := rfl
          rw [htaken, List.length_nil]
          omega
        · have hrows := (forall_mem_ofPremises (P := fun b => b.height ≤ m - 2)
            (fun d hd path => ih d hd) path 0).mp (rowHeight_le_iff.mp (by omega)) d
            (List.mem_of_getElem? hi) p n hn
          rw [List.length_cons]
          omega
      · intro h
        have hroot : 2 ≤ m := h [] _ rfl
        have hrows : rowHeight (ofPremises st marked path 0 ds) ≤ m - 2 := by
          rw [rowHeight_le_iff]
          refine (forall_mem_ofPremises (fun d hd path => ih d hd) path 0).mpr ?_
          intro d hd p n hn
          obtain ⟨i, hi⟩ := Derivation.exists_at?_of_mem (s := s) (k := k) hd
          have hle := h (i :: p) n ((hi p).trans hn)
          rw [List.length_cons] at hle
          omega
        omega

/-! ## Lines -/

variable {opts : Options} {d : Derivation}

theorem length_lines : (lines opts d).length = (box opts d).height := by
  simp [lines, rows]

theorem mem_lines_iff {line : String} :
    line ∈ lines opts d ↔
      ∃ n < (box opts d).height, Piece.paintRow opts.painter ((box opts d).row n) = line := by
  simp [lines, rows]

/-- The number of lines is twice the depth if a node at that depth has a rule. -/
theorem height_box_of_rule {path : Path} {n : Derivation} (hat : d.at? path = some n)
    (hdepth : path.length + 1 = d.stats.depth) (hrule : n.rule?.isSome) :
    (box opts d).height = 2 * d.stats.depth := by
  apply Nat.le_antisymm
  · refine height_ofDerivation_le_iff.mpr fun q e hq => ?_
    have hlength := Derivation.depth_le_iff.mp (Nat.le_refl d.stats.depth) q e hq
    by_cases he : e.rule?.isSome
    · rw [Derivation.rowsTaken_of_isSome he]
      omega
    · rw [Derivation.rowsTaken_of_not_isSome he]
      omega
  · have hrows := height_ofDerivation_le_iff.mp (Nat.le_refl (box opts d).height) path n hat
    rw [Derivation.rowsTaken_of_isSome hrule] at hrows
    omega

/-- It is one less if there are only goals at that depth. -/
theorem height_box_of_goals
    (hgoals : ∀ path n, d.at? path = some n → path.length + 1 = d.stats.depth → ¬ n.rule?.isSome) :
    (box opts d).height = 2 * d.stats.depth - 1 := by
  apply Nat.le_antisymm
  · refine height_ofDerivation_le_iff.mpr fun q e hq => ?_
    have hlength := Derivation.depth_le_iff.mp (Nat.le_refl d.stats.depth) q e hq
    by_cases he : e.rule?.isSome
    · have hne : q.length + 1 ≠ d.stats.depth := fun heq => hgoals q e hq heq he
      rw [Derivation.rowsTaken_of_isSome he]
      omega
    · rw [Derivation.rowsTaken_of_not_isSome he]
      omega
  · obtain ⟨path, n, hat, hdepth⟩ := d.exists_deepest
    have hrows := height_ofDerivation_le_iff.mp (Nat.le_refl (box opts d).height) path n hat
    rw [Derivation.rowsTaken_of_not_isSome (hgoals path n hat hdepth)] at hrows
    omega

/-- Whether a node with a rule is as deep as the derivation. -/
def endsInRule (d : Derivation) : Bool :=
  (d.walk fun _ => true).any fun n => n.1.length + 1 = d.stats.depth && n.2.rule?.isSome

theorem endsInRule_iff :
    endsInRule d = true ↔
      ∃ path n, d.at? path = some n ∧ path.length + 1 = d.stats.depth ∧ n.rule?.isSome := by
  simp [endsInRule, Derivation.mem_walk_iff]

theorem length_lines_eq :
    (lines opts d).length =
      if endsInRule d then 2 * d.stats.depth else 2 * d.stats.depth - 1 := by
  rw [length_lines]
  split
  · next hrule =>
      obtain ⟨path, n, hat, hdepth, hn⟩ := endsInRule_iff.mp hrule
      exact height_box_of_rule hat hdepth hn
  · next hgoals =>
      refine height_box_of_goals fun path n hat hdepth hn => hgoals ?_
      exact endsInRule_iff.mpr ⟨path, n, hat, hdepth, hn⟩

/-- **Every drawing is a full rectangle.**  None of its boxes asks for a negative
amount of space on any row, its own or one above it; all lines are as wide as the
box of the whole; and their number is twice the depth of the derivation if a node
at that depth has a rule, and one less otherwise. -/
theorem lines_rectangular (st : Style) (emphasis : Bool) (d : Derivation) :
    let opts : Options := { style := st, emphasis := emphasis }
    (∀ b, (box opts d).Part b → ∀ n, ∀ p ∈ b.row n, p.IsPaintable) ∧
    (∀ line ∈ lines opts d, (line.length : Int) = (box opts d).width) ∧
    (lines opts d).length =
      if endsInRule d then 2 * d.stats.depth else 2 * d.stats.depth - 1 := by
  intro opts
  have hmeasured := measured_box opts d
  refine ⟨fun b hb => (hb.measured hmeasured).isPaintable_row, ?_, length_lines_eq⟩
  intro line hline
  obtain ⟨n, -, rfl⟩ := mem_lines_iff.mp hline
  exact (hmeasured.shows_row n 0).length_eq

/-- A goal beside a rule without premises: four lines of nineteen columns, and the
goal, which is one row high, is painted on all rows above it. -/
theorem lines_rectangular_unbalanced :
    let A : Formula := .var ⟨⟨'A', rfl⟩, []⟩
    let d : Derivation := .node ⟨[A], .conj A A⟩ .conjunctionIntro
      [.goal ⟨[A], A⟩, .node ⟨[A], A⟩ .hypothesis []]
    let opts : Options := { style := .default, emphasis := true }
    let b := ofGoal (Sequent.format .default true ⟨[A], A⟩)
    let top := "          ──────h  "
    (box opts d).Part b ∧ Piece.blank 6 ∈ b.row 7 ∧ (Piece.blank 6).IsPaintable ∧
      top ∈ lines opts d ∧ (top.length : Int) = (box opts d).width ∧ (box opts d).width = 19 ∧
      endsInRule d = true ∧ (lines opts d).length = 2 * 2 := by
  intro A d opts b top
  obtain ⟨hpaintable, hwidth, hlength⟩ := lines_rectangular .default true d
  have hpart : (box opts d).Part b := .upper (c := b) (.head _) (.self b)
  have hblank : Piece.blank 6 ∈ b.row 7 := by decide +kernel
  have htop : top ∈ lines opts d := by decide +kernel
  exact ⟨hpart, hblank, hpaintable b hpart 7 _ hblank, htop, hwidth top htop, by decide +kernel,
    by decide +kernel, hlength⟩

end Picture

end Sequitur
