import Mathlib.Algebra.Ring.Parity
import Sequitur.Proofs.Picture.Geometry

/-!
# Sequitur.Proofs.Picture.Emphasis

What is emphasized in a drawing: the conclusion of the goal that the next rule is
applied to, all of it and nothing else.

A goal is found by its path, and paths tell nodes apart that carry the same sequent.
So the sequents of a drawing are followed from the rows back to the nodes and their
paths: an even row holds the sequents of the nodes at a depth (`rowTexts_two_mul`),
an odd row holds none, and among the nodes the path comes up once.  A line is its
ground, which no painter sees, with what the painter makes of the sequents of its row
put in between (`lines_eq`).
-/

namespace Sequitur

open Box Placed

/-! ## Spans -/

namespace Span

/-- Spans that are emphasized, or that are not. -/
def withEmphasis (b : Bool) (spans : List Span) : List Span := spans.map ({ · with emphasis := b })

theorem withEmphasis_false {spans : List Span} (h : ∀ s ∈ spans, s.emphasis = false) :
    withEmphasis false spans = spans := by
  unfold withEmphasis
  induction spans with
  | nil => rfl
  | cons s spans ih =>
      rw [List.forall_mem_cons] at h
      rw [List.map_cons, ih h.2, ← h.1]

theorem filter_withEmphasis (b : Bool) (spans : List Span) :
    (withEmphasis b spans).filter (·.emphasis) = if b then emphasize spans else [] := by
  cases b <;> simp [withEmphasis, emphasize, Function.comp_def, List.filter_map]

end Span

theorem Formula.emphasis_format (st : Style) (p : Formula) :
    ∀ s ∈ p.format st, s.emphasis = false :=
  p.forall_mem_format (fun _ => rfl) fun _ _ _ => rfl

namespace Sequent

/-- What is printed before the conclusion: the hypotheses and the turnstile. -/
def formatContext (st : Style) (s : Sequent) : List Span :=
  formatHyps st s.hyps ++ [Symbol.turnstile.span st, blankSpan]

theorem emphasis_formatHyps (st : Style) (hs : List Formula) :
    ∀ s ∈ formatHyps st hs, s.emphasis = false := by
  fun_induction formatHyps st hs with
  | case1 => simp
  | case2 h => simpa [or_imp, forall_and] using h.emphasis_format st
  | case3 h hs _ ih => simpa [or_imp, forall_and, Symbol.span] using ⟨h.emphasis_format st, ih⟩

/-- **Only the conclusion of a sequent is ever emphasized**, and then all of it. -/
theorem format_eq (st : Style) (b : Bool) (s : Sequent) :
    s.format st b = Span.withEmphasis false (s.formatContext st) ++
      Span.withEmphasis b (s.concl.format st) := by
  have hcontext : ∀ t ∈ s.formatContext st, t.emphasis = false := by
    simpa [formatContext, or_imp, forall_and, Symbol.span] using emphasis_formatHyps st s.hyps
  rw [Span.withEmphasis_false hcontext]
  cases b with
  | false =>
      rw [Span.withEmphasis_false (s.concl.emphasis_format st)]
      simp [format, formatContext]
  | true => simp [format, formatContext, Span.emphasize, Span.withEmphasis]

theorem filter_format (st : Style) (b : Bool) (s : Sequent) :
    (s.format st b).filter (·.emphasis) = if b then Span.emphasize (s.concl.format st) else [] := by
  simp [format_eq, Span.filter_withEmphasis]

end Sequent

/-! ## The sequents of a row -/

/-- The text of a sequent. -/
def Piece.text? : Piece → Option (List Span)
  | sequent text => some text
  | _ => none

/-- The texts of the sequents of a row, from left to right. -/
def rowTexts (ps : List Piece) : List (List Span) := ps.filterMap Piece.text?

/-- What a row shows around its sequents: before the first one, and behind each of them. -/
def Piece.ground : List Piece → String × List String
  | [] => ("", [])
  | .sequent _ :: ps => ("", (ground ps).1 :: (ground ps).2)
  | p :: ps => (p.paint Painter.plain ++ (ground ps).1, (ground ps).2)

/-- Texts between the parts of a ground, of which `first` comes before the first text. -/
def interleaved (first : String) : List String → List String → String
  | text :: texts, next :: grounds => first ++ text ++ interleaved next texts grounds
  | _, _ => first

theorem append_interleaved (front first : String) (texts grounds : List String) :
    front ++ interleaved first texts grounds = interleaved (front ++ first) texts grounds := by
  cases texts with
  | nil => rfl
  | cons text texts =>
      cases grounds with
      | nil => rfl
      | cons next grounds =>
          rw [interleaved, interleaved, String.append_assoc, String.append_assoc,
            String.append_assoc]

/-- **A painter is given the sequents of a row**, one by one, and nothing else. -/
theorem paintRow_eq (painter : Painter) (ps : List Piece) :
    Piece.paintRow painter ps =
      interleaved (Piece.ground ps).1 ((rowTexts ps).map painter) (Piece.ground ps).2 := by
  induction ps with
  | nil => rfl
  | cons p ps ih =>
      rw [Piece.paintRow, ih]
      cases p with
      | sequent text => rfl
      | _ => exact append_interleaved ..

/-- Above a goal there are no premises. -/
theorem Box.Measured.premises_eq_nil {p : Placed} (h : p.box.Measured)
    (hlabel : p.box.label = none) : p.premises = [] := by
  obtain ⟨x, b⟩ := p
  cases h with
  | goal _ => rfl
  | rule _ _ _ => cases hlabel

theorem rowTexts_rowAcross (n : Nat) (bs : List Box) :
    rowTexts (rowAcross n bs) = bs.flatMap fun b => rowTexts (row n b) := by
  induction bs with
  | nil => rw [rowAcross, List.flatMap_nil]; rfl
  | cons b bs ih =>
      have hgap : rowTexts (if bs.isEmpty then [] else [.blank premiseGap]) = [] := by
        split <;> rfl
      unfold rowTexts at hgap ih ⊢
      rw [rowAcross, List.filterMap_append, List.filterMap_append, hgap, ih, List.append_nil,
        List.flatMap_cons]

namespace Placed

/-- Two rows up, there are the sequents of the premises. -/
theorem rowTexts_add_two {p : Placed} {l : String} (h : p.box.label = some l) (n : Nat) :
    rowTexts (row (n + 2) p.box) = p.premises.flatMap fun q => rowTexts (row n q.box) := by
  calc rowTexts (row (n + 2) p.box)
      _ = rowTexts (rowAcross n p.box.upper) := by
        rw [row_add_two h, rowTexts, rowTexts, List.filterMap_cons_none rfl, List.filterMap_append]
        exact List.append_nil _
      _ = p.box.upper.flatMap fun b => rowTexts (row n b) := rowTexts_rowAcross n _
      _ = (p.premises.map box).flatMap fun b => rowTexts (row n b) := by
        rw [premises, map_box_across]
      _ = _ := List.flatMap_map ..

theorem level_eq_flatMap (k : Nat) (F : List Placed) :
    level k F = F.flatMap fun q => level k [q] := by
  induction F with
  | nil => exact level_nil k
  | cons q F ih => rw [← List.singleton_append, level_append, ih]; rfl

variable {p : Placed}

/-- **An even row holds the sequents of the boxes of a level.** -/
theorem rowTexts_two_mul (h : p.box.Measured) (k : Nat) :
    rowTexts (row (2 * k) p.box) = (level k [p]).map (·.box.text) := by
  induction k generalizing p with
  | zero => rw [Nat.mul_zero, row_zero]; rfl
  | succ k ih =>
      rw [Nat.mul_succ, level, List.flatMap_singleton]
      cases hlabel : p.box.label with
      | none =>
          rw [row_of_label_none hlabel, h.premises_eq_nil hlabel, level_nil]
          rfl
      | some l =>
          rw [rowTexts_add_two hlabel, level_eq_flatMap, List.map_flatMap]
          exact List.flatMap_congr fun q hq => ih (h.upper _ (mem_premises h hq).1)

theorem rowTexts_two_mul_add_one (h : p.box.Measured) (k : Nat) :
    rowTexts (row (2 * k + 1) p.box) = [] := by
  induction k generalizing p with
  | zero =>
      cases hlabel : p.box.label with
      | none => rw [row_of_label_none hlabel]; rfl
      | some l => rw [row_one hlabel]; rfl
  | succ k ih =>
      cases hlabel : p.box.label with
      | none => rw [row_of_label_none hlabel]; rfl
      | some l =>
          show rowTexts (row (2 * k + 1 + 2) p.box) = []
          rw [rowTexts_add_two hlabel, List.flatMap_eq_nil_iff]
          exact fun q hq => ih (h.upper _ (mem_premises h hq).1)

end Placed

namespace Picture

variable {st : Style} {marked : Option Path} {d : Derivation}

theorem rowTexts_ofDerivation (k : Nat) :
    rowTexts (row (2 * k) (ofDerivation st marked [] d)) =
      (d.nodesAt k).map fun n => n.2.sequent.format st (marked = some n.1) := by
  have hmeasured := measured_ofDerivation st marked [] d
  rw [rowTexts_two_mul (p := ⟨0, _⟩) hmeasured, ← List.forall₂_eq_eq_eq]
  refine List.rel_map ?_ (forall₂_level rfl k)
  intro q n h
  show q.box.text = _
  rw [h.box_eq, spans_ofDerivation]

/-! ## The one node -/

/-- The emphasized spans of a row. -/
def emphasizedOn (ps : List Piece) : List Span := (rowTexts ps).flatten.filter (·.emphasis)

/-- The emphasized spans of all sequents that are painted, top row first. -/
def emphasized (opts : Options) (d : Derivation) : List Span :=
  (rows (box opts d)).flatMap emphasizedOn

theorem emphasizedOn_two_mul (k : Nat) :
    emphasizedOn (row (2 * k) (ofDerivation st marked [] d)) =
      (d.nodesAt k).flatMap fun n =>
        if marked = some n.1 then Span.emphasize (n.2.sequent.concl.format st) else [] := by
  rw [emphasizedOn, rowTexts_ofDerivation, List.filter_flatten, List.map_map, List.flatMap_def]
  simp [Function.comp_def, Sequent.filter_format]

theorem emphasizedOn_two_mul_add_one (k : Nat) :
    emphasizedOn (row (2 * k + 1) (ofDerivation st marked [] d)) = [] := by
  rw [emphasizedOn, rowTexts_two_mul_add_one (p := ⟨0, _⟩) (measured_ofDerivation st marked [] d)]
  rfl

end Picture

/-- Where all elements but one contribute nothing, that one contributes everything. -/
theorem flatMap_eq_of_nodup {α β : Type} {f : α → List β} {xs : List α} {a : α} (hxs : xs.Nodup)
    (ha : a ∈ xs) (h : ∀ b ∈ xs, b ≠ a → f b = []) : xs.flatMap f = f a := by
  obtain ⟨before, after, rfl⟩ := List.append_of_mem ha
  have hnot := List.nodup_middle.mp hxs
  rw [List.nodup_cons, List.mem_append, not_or] at hnot
  have hbefore : before.flatMap f = [] := by
    rw [List.flatMap_eq_nil_iff]
    intro b hb
    exact h b (List.mem_append_left _ hb) fun heq => hnot.1.1 (heq ▸ hb)
  have hafter : after.flatMap f = [] := by
    rw [List.flatMap_eq_nil_iff]
    intro b hb
    exact h b (List.mem_append_right _ (List.mem_cons_of_mem a hb)) fun heq => hnot.1.2 (heq ▸ hb)
  rw [List.flatMap_append, List.flatMap_cons, hbefore, hafter, List.append_nil, List.nil_append]

namespace Derivation

theorem mem_nodesAt_iff {d n : Derivation} {path : Path} {k : Nat} :
    (path, n) ∈ d.nodesAt k ↔ d.at? path = some n ∧ path.length = k := by
  simp [nodesAt, mem_walk_iff]

theorem nodup_nodesAt (d : Derivation) (k : Nat) : (d.nodesAt k).Nodup :=
  (List.Nodup.of_map Prod.fst d.nodup_walk).filter _

end Derivation

namespace Picture

variable {st : Style} {d : Derivation}

/-- On the row of a node its conclusion is all that is emphasized, and on the other
rows there is nothing. -/
theorem emphasizedOn_marked {path : Path} {n : Derivation} (hat : d.at? path = some n) (m : Nat) :
    emphasizedOn (row m (ofDerivation st (some path) [] d)) =
      if m = 2 * path.length then Span.emphasize (n.sequent.concl.format st) else [] := by
  obtain ⟨k, rfl | rfl⟩ := m.even_or_odd'
  · rw [emphasizedOn_two_mul]
    by_cases hk : path.length = k
    · -- the node is at this depth, and no other node has its path
      have hmem := Derivation.mem_nodesAt_iff.mpr ⟨hat, hk⟩
      rw [flatMap_eq_of_nodup (d.nodup_nodesAt k) hmem, if_pos rfl, if_pos (by omega)]
      rintro ⟨q, e⟩ he hne
      rw [if_neg]
      intro heq
      obtain rfl := Option.some.inj heq
      obtain rfl := Option.some.inj (hat.symm.trans (Derivation.mem_nodesAt_iff.mp he).1)
      exact hne rfl
    · rw [if_neg (by omega), List.flatMap_eq_nil_iff]
      rintro ⟨q, e⟩ he
      rw [if_neg]
      intro heq
      obtain rfl := Option.some.inj heq
      exact hk (Derivation.mem_nodesAt_iff.mp he).2
  · rw [emphasizedOn_two_mul_add_one, if_neg (by omega)]

/-- **Of a drawing, the conclusion of the node at the path is emphasized**, and
nothing else. -/
theorem flatMap_emphasizedOn_marked {path : Path} {n : Derivation} (hat : d.at? path = some n) :
    (rows (ofDerivation st (some path) [] d)).flatMap emphasizedOn =
      Span.emphasize (n.sequent.concl.format st) := by
  have hheight := height_ofDerivation_le_iff.mp
    (Nat.le_refl (ofDerivation st (some path) [] d).height) path n hat
  have hrow : 2 * path.length < (ofDerivation st (some path) [] d).height := by
    have htaken : 0 < n.rowsTaken := by
      unfold Derivation.rowsTaken
      split <;> omega
    omega
  rw [rows, List.flatMap_map, flatMap_eq_of_nodup (a := 2 * path.length)]
  · rw [emphasizedOn_marked hat, if_pos rfl]
  · exact List.nodup_reverse.mpr List.nodup_range
  · simpa using hrow
  · intro m _ hm
    rw [emphasizedOn_marked hat, if_neg hm]

theorem flatMap_emphasizedOn_none :
    (rows (ofDerivation st none [] d)).flatMap emphasizedOn = [] := by
  rw [rows, List.flatMap_map, List.flatMap_eq_nil_iff]
  intro m _
  obtain ⟨k, rfl | rfl⟩ := m.even_or_odd'
  · simp [emphasizedOn_two_mul]
  · exact emphasizedOn_two_mul_add_one k

theorem lines_eq (opts : Options) (d : Derivation) :
    lines opts d = (rows (box opts d)).map fun ps =>
      interleaved (Piece.ground ps).1 ((rowTexts ps).map opts.painter) (Piece.ground ps).2 :=
  List.map_congr_left fun ps _ => paintRow_eq opts.painter ps

/-- **Emphasis marks the goal that the next rule is applied to.**  Of a row, the painter is
given the sequents one by one and nothing else.  The sequents on row `2 * k` are those of the nodes at depth `k`; nothing is emphasized in them but
the conclusion of the node at the path of the next goal, and there all of it; and on
the other rows there are no sequents.  So with emphasis, the emphasized spans of a
drawing are those of the conclusion of the next goal; without it, and when nothing
is left to be proved, there are none. -/
theorem emphasis_marks_nextGoal (opts : Options) (d : Derivation) :
    (∀ k, rowTexts ((box opts d).row (2 * k)) = (d.nodesAt k).map fun n =>
      Span.withEmphasis false (n.2.sequent.formatContext opts.style) ++
        Span.withEmphasis (opts.emphasis && d.nextGoal? = some n.1)
          (n.2.sequent.concl.format opts.style)) ∧
    (∀ k, rowTexts ((box opts d).row (2 * k + 1)) = []) ∧
    (∀ path, opts.emphasis = true → d.nextGoal? = some path →
      ∃ s, d.at? path = some (.goal s) ∧
        emphasized opts d = Span.emphasize (s.concl.format opts.style)) ∧
    (opts.emphasis = false ∨ d.isComplete = true → emphasized opts d = []) ∧
    lines opts d = (rows (box opts d)).map fun ps =>
      interleaved (Piece.ground ps).1 ((rowTexts ps).map opts.painter) (Piece.ground ps).2 := by
  refine ⟨?_, rowTexts_two_mul_add_one (p := ⟨0, _⟩) (measured_box opts d), ?_, ?_, lines_eq opts d⟩
  · intro k
    rw [box, rowTexts_ofDerivation]
    cases opts.emphasis <;> simp [Sequent.format_eq]
  · intro path hemphasis hnext
    obtain ⟨s, hat⟩ := Derivation.exists_goal_of_nextGoal? hnext
    refine ⟨s, hat, ?_⟩
    rw [emphasized, box, if_pos hemphasis, hnext]
    exact flatMap_emphasizedOn_marked hat
  · intro h
    have hmarked : (if opts.emphasis then d.nextGoal? else none) = none := by
      rcases h with h | h
      · simp [h]
      · simpa [Derivation.isComplete] using fun _ => h
    rw [emphasized, box, hmarked]
    exact flatMap_emphasizedOn_none

/-- Two premises with the same sequent, of which the second is to be proved: only
there the conclusion is emphasized.  When it is proved as well, nothing is. -/
theorem emphasis_marks_nextGoal_twins :
    let A : Formula := .var ⟨⟨'A', rfl⟩, []⟩
    let proved : Derivation := .node ⟨[A], A⟩ .hypothesis []
    let d : Derivation := .node ⟨[A], .conj A A⟩ .conjunctionIntro [proved, .goal ⟨[A], A⟩]
    let done : Derivation := .node ⟨[A], .conj A A⟩ .conjunctionIntro [proved, proved]
    let opts : Options := { style := .default, emphasis := true }
    let name (b : Bool) : Span := { text := "A", cls := .name, emphasis := b }
    let context : List Span := [name false, blankSpan, Symbol.turnstile.span .default, blankSpan]
    opts.emphasis = true ∧ d.nextGoal? = some [1] ∧ d.at? [1] = some (.goal ⟨[A], A⟩) ∧
      rowTexts ((box opts d).row 2) = [context ++ [name false], context ++ [name true]] ∧
      emphasized opts d = [name true] ∧ done.isComplete = true ∧ emphasized opts done = [] := by
  intro A proved d done opts name context
  obtain ⟨hrows, -, hnext, -, -⟩ := emphasis_marks_nextGoal opts d
  obtain ⟨-, -, -, hdone, -⟩ := emphasis_marks_nextGoal opts done
  obtain ⟨s, hat, hspans⟩ := hnext [1] rfl rfl
  obtain rfl : ⟨[A], A⟩ = s := by cases hat; rfl
  exact ⟨rfl, rfl, rfl, hrows 1, hspans, rfl, hdone (.inr rfl)⟩

end Picture

end Sequitur
